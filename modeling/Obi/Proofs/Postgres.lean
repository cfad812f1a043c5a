import Obi.Proofs.SliceReader
import Obi.Spec.Postgres

/-!
# Postgres messages and the chunks they lie in

On a tape the iterator and the Bind parser read the same pieces whatever the
chunks are, and fail at the same place. What differs is the scratch memory: the
iterator looks at a header its payload may have been written over, and the Bind
parser at names everything behind them may have been written over. So two
chunkings give the same messages, or the same command, exactly if what is left
there agrees.
-/

namespace Obi.Refine
open Lib Ref Ref.Postgres Spec Spec.Postgres List Scalar SliceParser BindCommand Passed
variable {c₁ c₂ : List (List UInt8)} {cr cr' : Nat → Nat → Bool} {t : Tape}

/-! ## The iterator -/

/-- The byte the iterator takes for the type of a message in the end. -/
def typeSeen (cr : Nat → Nat → Bool) (pos cap : Nat) (m : RawMessage) : UInt8 :=
  if m.Overwritten cr pos cap then m.data.headD 0 else m.kind

def shownMessage (cr : Nat → Nat → Bool) (pos cap : Nat) (m : RawMessage) : PostgresMessage :=
  ⟨postgresCommandID m.kind, m.data, m.isPartial, typeSeen cr pos cap m = kPostgresSync⟩

def shownMessages (cr : Nat → Nat → Bool) : Nat → Nat → List RawMessage → List PostgresMessage
  | _, _, [] => []
  | pos, cap, m :: rest =>
    shownMessage cr pos cap m ::
      shownMessages cr (pos + 5 + m.data.length) (m.capAfter cr pos cap) rest

/-- The header of a message with a payload of `n` bytes, at the front. -/
structure AtMessage (t : Tape) (n : Nat) (isPartial : Bool) : Prop where
  header : 5 ≤ t.rest.length
  payload : n ≤ (t.rest.drop 5).length
  size : 4 ≤ decode .i32be ((t.rest.drop 1).take 4)
  cut : isPartial =
    decide (((t.rest.drop 5).length : Int) < decode .i32be ((t.rest.drop 1).take 4) - 4)
  length : (n : Int) = if isPartial then ((t.rest.drop 5).length : Int)
    else decode .i32be ((t.rest.drop 1).take 4) - 4
  parse : isPartial = true → postgresCommandID (t.rest.headD 0) = .parse

/-- The message at the front. -/
def frontMessage (t : Tape) (n : Nat) (isPartial : Bool) : RawMessage :=
  ⟨t.rest.headD 0, (t.rest.drop 5).take n, isPartial⟩

theorem headD_take_append (w v : List UInt8) (hw : w ≠ []) (n : Nat) (hn : 0 < n) :
    ((w ++ v).take n).headD 0 = w.headD 0 := by
  obtain ⟨a, w, rfl⟩ := exists_cons_of_ne_nil hw
  obtain ⟨n, rfl⟩ := Nat.exists_eq_succ_of_ne_zero (ne_of_gt hn)
  rfl

variable {n : Nat} {isPartial : Bool}

theorem take_headD (w : List UInt8) (hn : 0 < n) : (w.take n).headD 0 = w.headD 0 := by
  obtain ⟨n, rfl⟩ := Nat.exists_eq_succ_of_ne_zero (ne_of_gt hn)
  cases w <;> rfl

theorem length_frontMessage (h : AtMessage t n isPartial) :
    (frontMessage t n isPartial).data.length = n := by
  rw [frontMessage, length_take, min_eq_left h.payload]

theorem frontMessage_eq_nil_iff (h : AtMessage t n isPartial) :
    (frontMessage t n isPartial).data = [] ↔ n = 0 := by
  rw [← length_eq_zero_iff, length_frontMessage h]

theorem cap_header (h : 5 ≤ t.rest.length) :
    (t.read cr 5).memory.cap = grown cr t.pos 5 t.memory.cap := cap_copied h

theorem overwritten_iff (h : AtMessage t n isPartial) :
    (frontMessage t n isPartial).Overwritten cr t.pos t.memory.cap ↔
      n ≠ 0 ∧ cr t.pos 5 = true ∧ cr (t.read cr 5).pos n = true ∧ n ≤ (t.read cr 5).memory.cap := by
  rw [RawMessage.Overwritten, ne_eq, frontMessage_eq_nil_iff h, length_frontMessage h,
    cap_header h.header, read_pos]

variable (cr) in
/-- The first byte of the header, after the payload was read. -/
theorem header_left (h : AtMessage t n isPartial) :
    (((t.read cr 5).read cr n).memory.load (t.readSlice cr 5)).headD 0 =
      typeSeen cr t.pos t.memory.cap (frontMessage t n isPartial) := by
  rw [typeSeen]
  by_cases hzero : n = 0
  · rw [hzero]
    have hload : (t.read cr 5).memory.load (t.readSlice cr 5) = t.rest.take 5 :=
      load_readSlice cr h.header
    change ((t.read cr 5).memory.load (t.readSlice cr 5)).headD 0 = t.rest.headD 0
    rw [hload, take_headD _ (by omega)]
  have hpay : n ≤ (t.read cr 5).rest.length := by exact h.payload
  have hover : ((t.read cr 5).copied cr n).memory.load (t.slice cr 5) = _ :=
    load_slice_over cr h.header hpay rfl
  have hload : ((t.read cr 5).read cr n).memory.load (t.readSlice cr 5) =
      ((t.read cr 5).copied cr n).memory.load (t.slice cr 5) := by
    rw [Tape.read, if_neg hzero]
    rfl
  rw [hload, hover]
  by_cases hcond : cr t.pos 5 = true ∧ cr (t.read cr 5).pos n = true ∧
      n ≤ (t.read cr 5).memory.cap
  · rw [if_pos hcond, if_pos ((overwritten_iff h).mpr ⟨hzero, hcond⟩)]
    have hne : (t.rest.drop 5).take n ≠ [] := mt (frontMessage_eq_nil_iff h).mp hzero
    exact headD_take_append _ _ hne 5 (by omega)
  rw [if_neg hcond, if_neg (fun hover => hcond ((overwritten_iff h).mp hover).2),
    take_headD _ (by omega)]
  rfl

/-- What a header makes of the bytes behind it. -/
theorem next_eq {size : Int} (hlen : 5 ≤ t.rest.length)
    (hsize : decode .i32be ((t.rest.drop 1).take 4) = size)
    (hn : (min (size - 4) (t.rest.drop 5).length).toNat = n) : onTape cr next t =
      if size < 4 then (.err .malformedMessage, t.read cr 5)
      else if (t.rest.drop 5).length < size - 4 ∧ postgresCommandID (t.rest.headD 0) ≠ .parse then
        (.err .remainingTooShortMessageData, t.read cr 5)
      else
        (.message (postgresCommandID (t.rest.headD 0)) ((t.read cr 5).readSlice cr n)
          ((t.rest.drop 5).length < size - 4)
          ((((t.read cr 5).read cr n).memory.load (t.readSlice cr 5)).headD 0 = kPostgresSync),
          (t.read cr 5).read cr n) := by
  have hhdr : (t.read cr 5).memory.load (t.readSlice cr 5) = t.rest.take 5 := load_readSlice cr hlen
  have hbs : ((t.rest.take 5).drop 1).take 4 = (t.rest.drop 1).take 4 := by
    rw [drop_take, take_take]
    rfl
  have hread : onTape cr (readN postgresHdrSize) t =
      (.ok (t.readSlice cr 5), t.read cr 5) := onTape_readN_any cr hlen
  have hpay : size - postgresHdrSize + 1 = size - 4 := by
    rw [postgresHdrSize]
    omega
  rw [Postgres.next, onTape_then (onTape_remaining t), if_neg (by omega),
    if_neg (by rw [postgresHdrSize]; omega), onTape_then hread, onTape_then (onTape_load _ _), hhdr,
    hbs, hsize, take_headD _ (by omega)]
  by_cases hsm : size < 4
  · rw [if_pos (by rw [postgresHdrSize]; omega), if_pos hsm]
    rfl
  rw [if_neg (by rw [postgresHdrSize]; omega), if_neg hsm, onTape_then (onTape_remaining _),
    read_rest, hpay]
  by_cases hcut : (t.rest.drop 5).length < size - 4 ∧ postgresCommandID (t.rest.headD 0) ≠ .parse
  · rw [if_pos hcut, if_pos hcut]
    rfl
  have hcnt : (if (t.rest.drop 5).length < size - 4 then ((t.rest.drop 5).length : Int)
      else size - 4) = (n : Int) := by
    split <;> omega
  rw [if_neg hcut, if_neg hcut, hcnt, onTape_then (onTape_readN_any cr (by rw [read_rest]; omega))]
  rfl

theorem next_message (h : AtMessage t n isPartial) : onTape cr next t =
      (.message (postgresCommandID (t.rest.headD 0)) ((t.read cr 5).readSlice cr n) isPartial
        (typeSeen cr t.pos t.memory.cap (frontMessage t n isPartial) = kPostgresSync),
        (t.read cr 5).read cr n) := by
  have hleft := header_left cr h
  obtain ⟨hlen, -, hsize, rfl, hlength, hprs⟩ := h
  simp only [decide_eq_true_eq] at hlength hprs
  have hn : (min (decode .i32be ((t.rest.drop 1).take 4) - 4) (t.rest.drop 5).length).toNat =
      n := by
    split at hlength <;> omega
  rw [next_eq hlen rfl hn, if_neg (by omega), if_neg (fun hbad => hbad.2 (hprs hbad.1)), hleft]

theorem next_short (hne : t.rest ≠ []) (h : t.rest.length < 5) :
    onTape cr next t = (.err .remainingTooShortHeader, t) := by
  have hpos := length_pos_iff.mpr hne
  rw [Postgres.next, onTape_then (onTape_remaining t), if_neg (by omega),
    if_pos (by rw [postgresHdrSize]; omega), onTape_pure]

theorem capAfter_front (h : AtMessage t n isPartial) :
    (frontMessage t n isPartial).capAfter cr t.pos t.memory.cap =
      ((t.read cr 5).read cr n).memory.cap := by
  rw [RawMessage.capAfter]
  by_cases hzero : n = 0
  · rw [hzero]
    exact (cap_header h.header).symm
  have hpay : n ≤ (t.read cr 5).rest.length := by exact h.payload
  have hread : ((t.read cr 5).read cr n).memory = ((t.read cr 5).copied cr n).memory := by
    generalize t.read cr 5 = t'
    rw [Tape.read, if_neg hzero]
    rfl
  rw [if_neg (mt (frontMessage_eq_nil_iff h).mp hzero), length_frontMessage h,
    ← cap_header h.header, hread, cap_copied hpay, read_pos]

theorem rawMessages_nil (rounds : Nat) : rawMessages rounds [] = ([], none) := by
  cases rounds <;> rfl

/-- The round that takes a message. -/
theorem messagesFrom_message (h : AtMessage t n isPartial)
    {rounds : Nat} {raws : List RawMessage} {ending : Option PgError}
    (hrest : (onTape cr (messagesFrom rounds) ((t.read cr 5).read cr n)).1 =
      (shownMessages cr ((t.read cr 5).read cr n).pos ((t.read cr 5).read cr n).memory.cap raws,
        ending)) :
    (onTape cr (messagesFrom (rounds + 1)) t).1 =
      (shownMessages cr t.pos t.memory.cap (frontMessage t n isPartial :: raws), ending) := by
  have hpay : n ≤ (t.read cr 5).rest.length := by exact h.payload
  rw [messagesFrom, onTape_then (next_message h)]
  rw [onTape_then (onTape_load _ _), onTape_bind, load_readSlice cr hpay, hrest, shownMessages,
    capAfter_front h, length_frontMessage h, read_pos, read_pos]
  rfl

theorem messagesFrom_onTape (rounds : Nat) (t : Tape) : (onTape cr (messagesFrom rounds) t).1 =
      (shownMessages cr t.pos t.memory.cap (rawMessages rounds t.rest).1,
        (rawMessages rounds t.rest).2) := by
  induction rounds generalizing t with
  | zero => rfl
  | succ rounds ih =>
    have hnext := ih
    rw [rawMessages]
    by_cases hnil : t.rest = []
    · rw [messagesFrom, onTape_bind, Postgres.next, onTape_bind, onTape_remaining, hnil]
      rfl
    rw [if_neg hnil]
    by_cases hsh : t.rest.length < postgresHdrSize
    · rw [if_pos hsh, messagesFrom, onTape_bind, next_short hnil hsh]
      rfl
    rw [if_neg hsh]
    rw [postgresHdrSize] at hsh ⊢
    have hlen : 5 ≤ t.rest.length := by omega
    by_cases hsm : decode .i32be ((t.rest.drop 1).take 4) < 4
    · rw [if_pos hsm, messagesFrom, onTape_bind, next_eq hlen rfl rfl, if_pos hsm]
      rfl
    rw [if_neg hsm]
    by_cases hcut : ((t.rest.drop 5).length : Int) < decode .i32be ((t.rest.drop 1).take 4) - 4
    · rw [if_pos hcut]
      split
      · next hprs =>
        have hat : AtMessage t (t.rest.drop 5).length true :=
          ⟨hlen, le_rfl, by omega, (decide_eq_true hcut).symm, rfl, fun _ => hprs⟩
        have hend := hnext ((t.read cr 5).read cr (t.rest.drop 5).length)
        rw [read_rest, read_rest, drop_length, rawMessages_nil] at hend
        rw [messagesFrom_message hat hend, frontMessage, take_length]
      · next hprs =>
        rw [messagesFrom, onTape_bind, next_eq hlen rfl rfl, if_neg hsm, if_pos ⟨hcut, hprs⟩]
        rfl
    · rw [if_neg hcut]
      have hat : AtMessage t (decode .i32be ((t.rest.drop 1).take 4) - 4).toNat false :=
        ⟨hlen, by omega, by omega, (decide_eq_false hcut).symm,
          by rw [if_neg (by decide)]; omega, fun h => absurd h (by decide)⟩
      have hend := hnext ((t.read cr 5).read cr (decode .i32be ((t.rest.drop 1).take 4) - 4).toNat)
      rw [read_rest] at hend
      rw [messagesFrom_message hat hend]
      rfl

/-- The iterator on a chunked buffer. -/
theorem iterate_eq (chunks : List (List UInt8)) : iterate.onReader (bufferOf chunks).newReader =
      some (shownMessages (crosses chunks) 0 0
          (rawMessages (chunks.flatten.length + 1) chunks.flatten).1,
        (rawMessages (chunks.flatten.length + 1) chunks.flatten).2) := by
  rw [onReader_eq_onTape, Postgres.iterate, onTape_bind, messagesFrom_onTape]
  rfl

/-! ### Two chunkings -/

theorem typeSeen_sync_iff (pos cap cap' : Nat) (m : RawMessage) :
    (typeSeen cr pos cap m = kPostgresSync ↔ typeSeen cr' pos cap' m = kPostgresSync) ↔
      (m.Overwritten cr pos cap ↔ m.Overwritten cr' pos cap') ∨ m.SameSync := by
  rw [typeSeen, typeSeen, RawMessage.SameSync]
  by_cases h : m.Overwritten cr pos cap <;> by_cases h' : m.Overwritten cr' pos cap' <;>
    simp [h, h']
  exact iff_comm

theorem shownMessages_eq_iff (pos cap cap' : Nat) (raws : List RawMessage) :
    shownMessages cr pos cap raws = shownMessages cr' pos cap' raws ↔
      SyncsAgree cr cr' pos cap cap' raws := by
  induction raws generalizing pos cap cap' with
  | nil => exact iff_of_true rfl trivial
  | cons m rest ih =>
    rw [shownMessages, shownMessages, SyncsAgree, cons.injEq, ih, ← typeSeen_sync_iff,
      shownMessage, shownMessage]
    simp

theorem iterate_eq_iff (h : c₁.flatten = c₂.flatten) :
    iterate.onReader (bufferOf c₁).newReader = iterate.onReader (bufferOf c₂).newReader ↔
      SyncsAgree (crosses c₁) (crosses c₂) 0 0 0
        (rawMessages (c₁.flatten.length + 1) c₁.flatten).1 := by
  rw [iterate_eq, iterate_eq, ← h, Option.some_inj, Prod.mk.injEq, shownMessages_eq_iff]
  exact and_iff_left rfl

/-! ## The Bind command -/

variable (cr) in
/-- The name in front of the next zero, on a tape. -/
theorem onTape_readCStr {name rest : List UInt8} (h : cstr t.rest = some (name, rest)) :
    onTape cr readCStr t = (.ok (t.readSlice cr name.length), (t.read cr name.length).forward 1) ∧
      name ++ 0 :: rest = t.rest := by
  rw [cstr] at h
  cases hfind : t.rest.findIdx? (· == 0) with
  | none =>
    rw [hfind] at h
    cases h
  | some i =>
    rw [hfind] at h
    cases h
    obtain ⟨hi, hzero, -⟩ := findIdx?_eq_some_iff_getElem.mp hfind
    have hlen : (t.rest.take i).length = i := by rw [length_take, min_eq_left hi.le]
    have hpart : t.rest.take i ++ 0 :: t.rest.drop (i + 1) = t.rest := by
      rw [← eq_of_beq hzero, ← drop_eq_getElem_cons hi, take_append_drop]
    refine ⟨?_, hpart⟩
    have hskip : onTape cr (skip 1) (t.read cr i) = (.ok (), (t.read cr i).forward 1) := by
      refine onTape_skip (n := 1) ?_
      rw [read_rest, length_drop]
      omega
    rw [hlen, readCStr, onTape_then (onTape_indexByte 0 t), Tape.find, hfind]
    simp only []
    rw [if_neg (by omega), onTape_then (onTape_readN_any cr hi.le), onTape_then hskip]
    rfl

theorem onTape_readCStr_error (h : cstr t.rest = none) :
    onTape cr readCStr t = (.error .noNull, t) := by
  rw [cstr] at h
  cases hfind : t.rest.findIdx? (· == 0) with
  | none =>
    rw [readCStr, onTape_bind, onTape_indexByte, Tape.find, hfind]
    rfl
  | some i =>
    rw [hfind] at h
    cases h

variable (cr) in
/-- The loop over the format codes. -/
theorem formatsLoop_onTape (count : Nat) (t : Tape) : match formatCodes count t.rest with
    | none => (onTape cr (formatsLoop count) t).1 = none
    | some (codes, rest) =>
      ∃ t', onTape cr (formatsLoop count) t = (some (), t') ∧ t'.rest = rest ∧
        Passed cr t codes t' := by
  induction count generalizing t with
  | zero => exact ⟨t, rfl, rfl, nil t⟩
  | succ count ih =>
    rw [formatCodes]
    by_cases hsh : t.rest.length < 2
    · obtain ⟨e, herror⟩ := onTape_scalar_error cr .u16be hsh
      rw [if_pos (.inl hsh), formatsLoop, onTape_bind, herror]
      rfl
    have hlen : 2 ≤ t.rest.length := by omega
    have hsc : onTape cr (readScalar .u16be) t =
        (.ok (decode .u16be (t.rest.take 2)), t.read cr 2) := onTape_scalar .u16be hlen
    rw [formatsLoop, onTape_then hsc]
    by_cases hformat : decode .u16be (t.rest.take 2) > 1
    · simp only [hformat, or_true]
      rfl
    have hrest := ih (t.read cr 2)
    rw [read_rest] at hrest
    simp only [hsh, hformat, or_self]
    generalize formatCodes count (t.rest.drop 2) = out at hrest ⊢
    rcases out with _ | ⟨codes, rest⟩
    · exact hrest
    · obtain ⟨t', hloop, hr, hpass⟩ := hrest
      exact ⟨t', hloop, hr, (read cr hlen).trans hpass⟩

variable (cr) in
theorem readFormats_onTape (t : Tape) : match formats t.rest with
    | none => (onTape cr readPostgresFormats t).1 = none
    | some (codes, rest) =>
      ∃ count t', onTape cr readPostgresFormats t = (some count, t') ∧ t'.rest = rest ∧
        Passed cr t codes t' := by
  rw [formats]
  by_cases hsh : t.rest.length < 2
  · obtain ⟨e, herror⟩ := onTape_scalar_error cr .u16be hsh
    rw [if_pos (.inl hsh), readPostgresFormats, onTape_bind, herror]
    rfl
  have hlen : 2 ≤ t.rest.length := by omega
  have hsc : onTape cr (readScalar .u16be) t =
      (.ok (decode .u16be (t.rest.take 2)), t.read cr 2) := onTape_scalar .u16be hlen
  have hleft : ((t.read cr 2).rest.length : Int) = ((t.rest.length - 2 : Nat) : Int) := by
    rw [read_rest, length_drop]
  rw [readPostgresFormats, onTape_then hsc, onTape_then (onTape_remaining _), hleft]
  by_cases hmany : decode .u16be (t.rest.take 2) > ((t.rest.length - 2 : Nat) : Int) / 2
  · rw [if_pos (.inr hmany), if_pos hmany]
    rfl
  rw [if_neg (not_or.mpr ⟨hsh, hmany⟩), if_neg hmany]
  have hloop := formatsLoop_onTape cr (decode .u16be (t.rest.take 2)).toNat (t.read cr 2)
  rw [read_rest] at hloop
  generalize formatCodes (decode .u16be (t.rest.take 2)).toNat (t.rest.drop 2) = out at *
  rcases out with _ | ⟨codes, rest⟩
  · simp only [onTape_bind, hloop]
    rfl
  obtain ⟨t', hl, hr, hpass⟩ := hloop
  rw [onTape_then hl]
  exact ⟨_, t', rfl, hr, (read cr hlen).trans hpass⟩

variable (cr) in
theorem argsLoop_onTape (params : Nat) (args : List (List UInt8)) (t : Tape) :
    match parameters params t.rest with
    | none => (onTape cr (argsLoop params args) t).1 = .error .tooShortParams
    | some (pieces, values) =>
      ∃ t', onTape cr (argsLoop params args) t = (.ok (args ++ values), t') ∧
        Passed cr t pieces t' := by
  induction params generalizing args t with
  | zero => exact ⟨t, by rw [append_nil]; rfl, nil t⟩
  | succ params ih =>
    rw [parameters]
    by_cases hsh : t.rest.length < 4
    · obtain ⟨e, herror⟩ := onTape_scalar_error cr .i32be hsh
      rw [if_pos hsh, argsLoop, onTape_bind, herror]
      rfl
    have hlen : 4 ≤ t.rest.length := by omega
    have hsc : onTape cr (readScalar .i32be) t =
        (.ok (decode .i32be (t.rest.take 4)), t.read cr 4) := onTape_scalar .i32be hlen
    rw [if_neg hsh]
    simp only []
    rw [argsLoop, onTape_then hsc]
    by_cases hnull : decode .i32be (t.rest.take 4) < 0
    · have hrest := ih args (t.read cr 4)
      rw [read_rest] at hrest
      simp only [hnull]
      generalize parameters params (t.rest.drop 4) = out at hrest ⊢
      rcases out with _ | ⟨pieces, values⟩
      · exact hrest
      · obtain ⟨t', hloop, hpass⟩ := hrest
        exact ⟨t', hloop, (read cr hlen).trans hpass⟩
    · generalize hk : (decode .i32be (t.rest.take 4)).toNat = k
      have hmin : min (decode .i32be (t.rest.take 4)) ((t.read cr 4).rest.length : Int) =
          ((min k (t.read cr 4).rest.length : Nat) : Int) := by omega
      have hvalue : (t.read cr 4).rest.take (min k (t.read cr 4).rest.length) =
          (t.rest.drop 4).take k := by
        rw [read_rest, take_eq_take_iff]
        omega
      have haft : ((t.read cr 4).read cr (min k (t.read cr 4).rest.length)).rest =
          (t.rest.drop 4).drop k := by
        rw [read_rest, read_rest, drop_eq_drop_iff]
        omega
      simp only [hnull, if_false]
      have hfits := min_le_right k (t.read cr 4).rest.length
      rw [onTape_then (onTape_remaining _), hmin, onTape_then (onTape_readN_any cr hfits),
        onTape_then (onTape_load _ _), load_readSlice cr hfits, hvalue]
      have hrest := ih (args ++ [(t.rest.drop 4).take k])
        ((t.read cr 4).read cr (min k (t.read cr 4).rest.length))
      rw [haft] at hrest
      generalize parameters params ((t.rest.drop 4).drop k) = out at hrest ⊢
      rcases out with _ | ⟨pieces, values⟩
      · exact hrest
      obtain ⟨t', hloop, hpass⟩ := hrest
      rw [append_assoc] at hloop
      have hpiece := read cr hfits
      rw [hvalue] at hpiece
      exact ⟨t', hloop, (read cr hlen).trans (hpiece.trans hpass)⟩

/-! ### What is left of the names -/

section
variable {statement portal rest : List UInt8} {pieces : List (List UInt8)} {t' t'' : Tape}

/-- The parser stands behind a name. -/
structure NamePassed (cr : Nat → Nat → Bool) (t : Tape) (name : List UInt8) (t' : Tape) : Prop where
  bytes : t.rest = name ++ 0 :: t'.rest
  pos : t'.pos = t.pos + (name.length + 1)
  memory : t'.memory = (t.read cr name.length).memory

variable (cr) in
theorem readCStr_passed (h : cstr t.rest = some (statement, rest)) :
    ∃ t', onTape cr readCStr t = (.ok (t.readSlice cr statement.length), t') ∧
      t'.rest = rest ∧ NamePassed cr t statement t' := by
  obtain ⟨hread, hbs⟩ := onTape_readCStr cr h
  have hrest : ((t.read cr statement.length).forward 1).rest = rest := by
    change ((t.read cr statement.length).rest).drop 1 = rest
    rw [read_rest, ← hbs, drop_left]
    rfl
  refine ⟨_, hread, hrest, ?_, ?_, rfl⟩
  · rw [hrest, hbs]
  · change (t.read cr statement.length).pos + 1 = _
    rw [read_pos, add_assoc]

theorem NamePassed.take (h : NamePassed cr t statement t') :
    t.rest.take statement.length = statement := by
  rw [h.bytes, take_left]

theorem NamePassed.le (h : NamePassed cr t statement t') : statement.length ≤ t.rest.length := by
  rw [h.bytes, length_append]
  exact Nat.le_add_right _ _

theorem copied_iff (pos : Nat) (name : List UInt8) :
    BindCommand.Copied cr pos name ↔ name.length ≠ 0 ∧ cr pos name.length = true := by
  rw [BindCommand.Copied, ne_eq, ne_eq, length_eq_zero_iff]

theorem NamePassed.cap (h : NamePassed cr t statement t') : t'.memory.cap =
      if BindCommand.Copied cr t.pos statement then max t.memory.cap statement.length
      else t.memory.cap := by
  rw [h.memory, cap_read h.le]
  simp [copied_iff]

/-- What a name shows after more was written to the memory. -/
theorem NamePassed.left (h : NamePassed cr t statement t') (ws : List (List UInt8)) :
    (t'.memory.writes ws).load (t.readSlice cr statement.length) =
      if BindCommand.Copied cr t.pos statement then
        Scratch.leftBy t'.memory.cap ws statement
      else statement := by
  rw [h.memory, load_readSlice_writes h.le, h.take]
  simp [copied_iff]

theorem NamePassed.writes (h : NamePassed cr t portal t') :
    t'.memory = t.memory.writes (crossing cr t.pos [portal]) := by
  have hpass := read cr h.le
  rw [h.take] at hpass
  rw [h.memory, hpass.memory]

/-- What is left of both names in the end. -/
theorem names_left {body : List UInt8} (args : List (List UInt8))
    (h₁ : NamePassed cr ⟨5, body, Scratch.none⟩ statement t) (h2 : NamePassed cr t portal t')
    (h3 : Passed cr t' pieces t'') :
    t''.memory.load ((Tape.mk 5 body Scratch.none).readSlice cr statement.length) =
        (mk statement portal pieces args).statementLeft cr ∧
      t''.memory.load (t.readSlice cr portal.length) =
        (mk statement portal pieces args).portalLeft cr := by
  have hpos : t.pos = (mk statement portal pieces args).portalAt := h₁.pos
  have hpos' : t'.pos = (mk statement portal pieces args).piecesAt := by
    rw [h2.pos, hpos]
    rfl
  have hcap : t.memory.cap = if BindCommand.Copied cr 5 statement then statement.length else 0 := by
    rw [h₁.cap]
    simp [show Scratch.none.cap = 0 from rfl]
  refine ⟨?_, ?_⟩
  · have hmem : t''.memory = t.memory.writes (crossing cr t.pos [portal] ++
        crossing cr t'.pos pieces) := by
      rw [h3.memory, h2.writes]
      exact (foldl_append ..).symm
    rw [hmem, h₁.left, statementLeft, hpos, hpos', hcap]
    by_cases hcopy : BindCommand.Copied cr 5 statement
    · simp [if_pos hcopy]
    · simp [if_neg hcopy]
  · rw [h3.memory, h2.left, portalLeft, h2.cap, hpos, hpos', hcap]
    by_cases hcopy : BindCommand.Copied cr (mk statement portal pieces args).portalAt portal
    · simp [if_pos hcopy]
    · simp [if_neg hcopy]

end

variable (cr) in
/-- The Bind parser on the tape of a body. -/
theorem bindBody_onTape (body : List UInt8) : (onTape cr bindBody ⟨5, body, Scratch.none⟩).1 =
      (readBind body).map fun m => (m.statementLeft cr, m.portalLeft cr, m.args) := by
  rw [readBind, bindBody]
  cases hstmt : cstr body with
  | none =>
    rw [onTape_then (onTape_readCStr_error hstmt)]
    rfl
  | some out =>
    obtain ⟨statement, rest1⟩ := out
    obtain ⟨t1, hread₁, rfl, hpass1⟩ := readCStr_passed cr (t := ⟨5, body, Scratch.none⟩) hstmt
    rw [onTape_then hread₁]
    simp only []
    cases hport : cstr t1.rest with
    | none =>
      rw [onTape_then (onTape_readCStr_error hport)]
      rfl
    | some out =>
      obtain ⟨portal, rest2⟩ := out
      obtain ⟨t2, hread2, rfl, hpass2⟩ := readCStr_passed cr hport
      rw [onTape_then hread2]
      simp only []
      have hfmts := readFormats_onTape cr t2
      cases hcodes : formats t2.rest with
      | none =>
        rw [hcodes] at hfmts
        rw [onTape_bind, hfmts]
        rfl
      | some out =>
        obtain ⟨codes, rest3⟩ := out
        rw [hcodes] at hfmts
        obtain ⟨count, t3, hread3, rfl, hpass3⟩ := hfmts
        rw [onTape_then hread3]
        simp only []
        by_cases hsh : t3.rest.length < 2
        · obtain ⟨e, herror⟩ := onTape_scalar_error cr .i16be hsh
          rw [if_pos hsh, onTape_bind, herror]
          rfl
        have hlen : 2 ≤ t3.rest.length := by omega
        have hsc : onTape cr (readScalar .i16be) t3 =
            (.ok (decode .i16be (t3.rest.take 2)), t3.read cr 2) := onTape_scalar .i16be hlen
        rw [if_neg hsh, onTape_then hsc]
        have hargs := argsLoop_onTape cr (decode .i16be (t3.rest.take 2)).toNat [] (t3.read cr 2)
        rw [read_rest] at hargs
        cases hparams : parameters (decode .i16be (t3.rest.take 2)).toNat (t3.rest.drop 2) with
        | none =>
          rw [hparams] at hargs
          rw [onTape_bind, hargs]
          rfl
        | some out =>
          obtain ⟨pieces, values⟩ := out
          rw [hparams] at hargs
          obtain ⟨t4, hread4, hpass4⟩ := hargs
          obtain ⟨hleft1, hleft2⟩ := names_left values hpass1 hpass2
            (hpass3.trans ((read cr hlen).trans hpass4))
          rw [onTape_then hread4, onTape_then (onTape_load _ _), onTape_then (onTape_load _ _),
            hleft1, hleft2]
          rfl

/-- The Bind parser on a chunked buffer. -/
theorem parseBind_eq (chunks : List (List UInt8)) :
    parsePostgresBindCommand (bufferOf chunks) = some (bindBytes chunks.flatten >>= fun body =>
        (readBind body).map fun m =>
          (m.statementLeft (crosses chunks), m.portalLeft (crosses chunks), m.args)) := by
  have htotal := total_bufferOf chunks
  have hbytes : (bufferOf chunks).cloneBytes = chunks.flatten :=
    congrArg flatten (chunks_bufferOf chunks)
  rw [parsePostgresBindCommand, msgBodyReader, viewAt_eq, bindBytes, htotal, hbytes]
  by_cases hsh : chunks.flatten.length < 5
  · rw [if_neg (by omega), if_pos hsh]
    rfl
  rw [if_pos (by omega), if_neg hsh]
  simp only []
  generalize hend : min (1 + decode .i32be ((chunks.flatten.drop 1).take 4))
    chunks.flatten.length = endOff
  rw [postgresHdrSize]
  by_cases hsm : endOff < 5
  · rw [if_pos (by omega), if_pos hsm]
    rfl
  rw [if_neg (by omega), if_neg hsm]
  have hnat : (endOff.toNat : Int) = endOff := by omega
  obtain ⟨r, hr, hrun⟩ := onLimited_eq_onTape bindBody chunks (show 0 < 5 by omega)
    (show 5 ≤ endOff.toNat by omega) (by omega)
  rw [hnat] at hr
  simp only [hr, Option.map_some, Except.mapError]
  rw [hrun, bindBody_onTape]
  rfl

theorem map_bind_eq_iff {ε α β : Type} {e : Except ε α} {f g : α → β} :
    e.map f = e.map g ↔ ∀ a, e = .ok a → f a = g a := by
  cases e with
  | error err => exact iff_of_true rfl (fun a h => nomatch h)
  | ok a =>
    refine ⟨fun h b hb => ?_, fun h => congrArg Except.ok (h a rfl)⟩
    cases hb
    exact Except.ok.inj h

theorem parseBind_eq_iff (h : c₁.flatten = c₂.flatten) :
    parsePostgresBindCommand (bufferOf c₁) = parsePostgresBindCommand (bufferOf c₂) ↔
      NamesAgree (crosses c₁) (crosses c₂) c₁.flatten := by
  rw [parseBind_eq, parseBind_eq, ← h, Option.some_inj, NamesAgree]
  cases hbs : bindBytes c₁.flatten with
  | error err => exact iff_of_true rfl (fun body m hbody => nomatch hbody)
  | ok body =>
    refine Iff.trans (map_bind_eq_iff) ?_
    constructor
    · intro hall body' m hbody hread
      cases hbody
      obtain ⟨hstmt, hrest⟩ := Prod.mk.inj (hall m hread)
      exact ⟨hstmt, (Prod.mk.inj hrest).1⟩
    · intro hall m hread
      obtain ⟨hstmt, hport⟩ := hall body m rfl hread
      rw [hstmt, hport]

/-! ## The two results -/

/-- The messages and the command are the same in two chunkings exactly if what is
read again later is. -/
theorem postgres_chunking_iff {c₁ c₂ : List (List UInt8)} (h : c₁.flatten = c₂.flatten) :
    (iterate.onReader (bufferOf c₁).newReader = iterate.onReader (bufferOf c₂).newReader ↔
        SyncsAgree (crosses c₁) (crosses c₂) 0 0 0
          (rawMessages (c₁.flatten.length + 1) c₁.flatten).1) ∧
      (parsePostgresBindCommand (bufferOf c₁) = parsePostgresBindCommand (bufferOf c₂) ↔
        NamesAgree (crosses c₁) (crosses c₂) c₁.flatten) :=
  ⟨iterate_eq_iff h, parseBind_eq_iff h⟩

/-- A Sync in one chunk and in two. -/
theorem postgres_chunking_iff_sync :
    [[0x53, 0, 0, 0, 4]].flatten = ([[0x53, 0], [0, 0, 4]] : List (List UInt8)).flatten ∧
      SyncsAgree (crosses [[0x53, 0, 0, 0, 4]]) (crosses [[0x53, 0], [0, 0, 4]]) 0 0 0
        (rawMessages 6 [0x53, 0, 0, 0, 4]).1 :=
  have hsame : ([[0x53, 0, 0, 0, 4]] : List (List UInt8)).flatten =
      [[0x53, 0], [0, 0, 4]].flatten := rfl
  ⟨hsame, (postgres_chunking_iff hsame).1.mp (by decide +kernel)⟩

/-- A Describe of a statement, whose payload starts like a Sync, is taken for one
if the ends of chunks lie in its header and in its payload; and a Bind command
has the name of its portal for the name of its statement if they lie in both
names. -/
theorem chunking_shows : (iterate.onReader (bufferOf [[0x44, 0, 0], [0, 6, 0x53], [0]]).newReader ≠
        iterate.onReader (bufferOf [[0x44, 0, 0, 0, 6, 0x53, 0]]).newReader) ∧
      parsePostgresBindCommand
          (bufferOf [[0x42, 0, 0, 0, 14, 0x61], [0x62, 0, 0x63], [0x64, 0, 0, 0, 0, 0]]) =
        some (.ok ([0x63, 0x64], [0x63, 0x64], [])) ∧
      parsePostgresBindCommand
          (bufferOf [[0x42, 0, 0, 0, 14, 0x61, 0x62, 0, 0x63, 0x64, 0, 0, 0, 0, 0]]) =
        some (.ok ([0x61, 0x62], [0x63, 0x64], [])) := by
  refine ⟨?_, ?_, ?_⟩ <;> decide +kernel

end Obi.Refine
