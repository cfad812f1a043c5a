import Obi.Ref.TcpLargeBuffer

/-!
# A captured payload is a prefix of what was sent

The kernel side cuts a send at the cap, then into batches, then into records;
the Go side joins the records again. Both are held against one notion: records
that *carry* a byte string for a key, the first of them opening the buffer
with a given action and the others appending. Each stage of the emission
carries the bytes it consumed, whatever fails on the way, and all it was asked
for when nothing fails. The store then holds what the records of its key
carried, in the order they came, no matter what is filed under other keys in
between.
-/

namespace Obi.Refine
open Ref Lib List LargeBuffer LargeBuffers TcpLargeBuffer HttpSend Nat

/-! ## Memory -/

section
variable (mem : Nat → UInt8) (a m n : Nat)

@[simp] theorem length_probeRead : (probeRead mem a n).length = n := by simp [probeRead]

theorem probeRead_add : probeRead mem a (m + n) = probeRead mem a m ++ probeRead mem (a + m) n := by
  simp [probeRead, range_add, add_assoc]

theorem probeRead_ne_nil (hn : 0 < n) : probeRead mem a n ≠ [] := by
  intro hnil
  have hlen := length_probeRead mem a n
  rw [hnil, length_nil] at hlen
  omega

end

/-! ## What records carry -/

/-- A record the Go side accepts, with something in it. -/
structure Sound (record : TcpLargeBuffer) : Prop where
  pos : 0 < record.hdr.len
  len_le : record.hdr.len ≤ record.buf.length
  pointer_le : sizeofPointer ≤ record.buf.length
  action : record.hdr.action = kLargeBufActionInit ∨ record.hdr.action = kLargeBufActionAppend

/-- The first record has action `a`, the others append. -/
def Opens (a : UInt8) : List TcpLargeBuffer → Prop
  | [] => True
  | r :: rest => r.hdr.action = a ∧ ∀ x ∈ rest, x.hdr.action = kLargeBufActionAppend

/-- The records carry `data` for `key`, the first of them with action `a`. -/
structure Carries (key : LargeBufferKey) (a : UInt8) (data : List UInt8)
    (records : List TcpLargeBuffer) : Prop where
  sound : ∀ r ∈ records, Sound r
  key : ∀ r ∈ records, r.hdr.key = key
  opens : Opens a records
  data : records.flatMap chunk = data

variable {key : LargeBufferKey} {a : UInt8} {data more : List UInt8}
  {record : TcpLargeBuffer} {records others : List TcpLargeBuffer}

theorem Carries.nil (key : LargeBufferKey) (a : UInt8) : Carries key a [] [] where
  sound := fun _ h => nomatch h
  key := fun _ h => nomatch h
  opens := trivial
  data := rfl

/-- No record is empty, so what carries nothing is no record. -/
theorem Carries.eq_nil (h : Carries key a [] records) : records = [] := by
  cases records with
  | nil => rfl
  | cons r rest =>
    have hr := h.sound r mem_cons_self
    have hdata := h.data
    rw [flatMap_cons, append_eq_nil_iff] at hdata
    have hlen := length_take_of_le hr.len_le
    rw [← chunk, hdata.1, length_nil] at hlen
    exact absurd hr.pos (by omega)

theorem Opens.all_append (h : Opens kLargeBufActionAppend records) :
    ∀ r ∈ records, r.hdr.action = kLargeBufActionAppend := by
  cases records with
  | nil => exact nofun
  | cons x rest =>
    intro r hr
    rcases mem_cons.1 hr with rfl | hr
    · exact h.1
    · exact h.2 r hr

/-- Records that append continue the ones before them. -/
theorem Carries.append (h : Carries key a data records)
    (h' : Carries key kLargeBufActionAppend more others) (hne : data ≠ []) :
    Carries key a (data ++ more) (records ++ others) where
  sound := fun r hr => (mem_append.1 hr).elim (h.sound r) (h'.sound r)
  key := fun r hr => (mem_append.1 hr).elim (h.key r) (h'.key r)
  opens := by
    cases records with
    | nil => exact absurd h.data.symm hne
    | cons x rest =>
      refine ⟨h.opens.1, fun r hr => ?_⟩
      rcases mem_append.1 hr with hr | hr
      · exact h.opens.2 r hr
      · exact h'.opens.all_append r hr
  data := by rw [flatMap_append, h.data, h'.data]

theorem Carries.singleton (hsound : Sound record) :
    Carries record.hdr.key record.hdr.action record.chunk [record] where
  sound := fun r hr => by rw [mem_singleton.1 hr]; exact hsound
  key := fun r hr => by rw [mem_singleton.1 hr]
  opens := ⟨rfl, fun _ hx => nomatch hx⟩
  data := by rw [flatMap_cons, flatMap_nil, append_nil]

/-! ## A batch -/

theorem chunk_outputRecord {largeBuf : TcpLargeBuffer}
    {n : Nat} (hdata : data.length = n) (hn : n ≤ kLargeBufPayloadMaxSize)
    (hlen : largeBuf.hdr.len = n) (hbuf : ∃ rest, largeBuf.buf = data ++ rest) :
    (outputRecord largeBuf n).chunk = data := by
  obtain ⟨rest, hbuf⟩ := hbuf
  simp only [kLargeBufPayloadMaxSize] at hn
  simp only [outputRecord, chunk, hlen, hbuf, take_take, sizeofPointer, kLargeBufPayloadMaxSize,
    tcpLargeBufferSize, kLargeBufMaxSize]
  rw [show min n (min (96 + min (max n 8) 16384) 32768 - 96) = n by omega, ← hdata, take_left]

theorem sound_outputRecord {largeBuf : TcpLargeBuffer} {n : Nat}
    (hpos : 0 < n) (hn : n ≤ kLargeBufPayloadMaxSize)
    (hlen : largeBuf.hdr.len = n)
    (hbuf : kLargeBufPayloadMaxSize ≤ largeBuf.buf.length)
    (ha : largeBuf.hdr.action = kLargeBufActionInit ∨ largeBuf.hdr.action = kLargeBufActionAppend) :
    Sound (outputRecord largeBuf n) := by
  simp only [kLargeBufPayloadMaxSize] at hn hbuf
  have hsize : (outputRecord largeBuf n).buf.length = max n 8 := by
    simp only [outputRecord, length_take, sizeofPointer,
      kLargeBufPayloadMaxSize, tcpLargeBufferSize, kLargeBufMaxSize]
    omega
  have hhdr : (outputRecord largeBuf n).hdr = largeBuf.hdr := rfl
  refine ⟨?_, ?_, ?_, ?_⟩
  · rw [hhdr, hlen]
    exact hpos
  · rw [hhdr]
    omega
  · rw [sizeofPointer]
    omega
  · exact ha

def ChunkAnswer.ok (ans : ChunkAnswer) : Prop := ans.readOk = true ∧ ans.outputOk = true

/-- What was put out carries the bytes consumed, and these are all there are
if nothing failed. -/
structure Emits (mem : Nat → UInt8) (addr available : Nat)
    (key : LargeBufferKey) (a : UInt8) (ok : Prop) (e : Emitted) : Prop where
  le : e.consumed ≤ available
  carries : Carries key a (probeRead mem addr e.consumed) e.records
  all : ok → e.consumed = available

theorem Emits.nothing {mem : Nat → UInt8} {addr available : Nat} {ok : Prop}
    (h : ok → available = 0) : Emits mem addr available key a ok ⟨[], 0⟩ where
  le := zero_le _
  carries := Carries.nil _ _
  all := fun hok => (h hok).symm

/-- A record, and what the passes after it put out. A pass that reads less
than a full record is the last one, so the next one starts where it ended. -/
theorem Emits.cons {mem : Nat → UInt8} {addr addr' available n : Nat} {ok : Prop} {rest : Emitted}
    (hfst : Carries key a (probeRead mem addr n) [record])
    (hrest : Emits mem addr' (available - n) key kLargeBufActionAppend ok rest)
    (hpos : 0 < n) (hn : n ≤ available)
    (haddr : addr' = addr + n ∨ available - n = 0) :
    Emits mem addr available key a ok ⟨record :: rest.records, n + rest.consumed⟩ where
  le := by
    have hle := hrest.le
    show n + rest.consumed ≤ available
    omega
  carries := by
    have hjoin : probeRead mem addr (n + rest.consumed)
        = probeRead mem addr n ++ probeRead mem addr' rest.consumed := by
      rw [probeRead_add]
      rcases haddr with rfl | hlast
      · rfl
      have hle := hrest.le
      rw [show rest.consumed = 0 by omega]
      rfl
    rw [hjoin]
    exact hfst.append hrest.carries (probeRead_ne_nil _ _ _ hpos)
  all := by
    intro hok
    have hall := hrest.all hok
    show n + rest.consumed = available
    omega

/-- The scratch memory after `n` bytes at `addr` were read into it. -/
def filled (mem : Nat → UInt8) (addr n : Nat) (largeBuf : TcpLargeBuffer) : TcpLargeBuffer :=
  ⟨{ largeBuf.hdr with len := n }, overwriteAt largeBuf.buf 0 (probeRead mem addr n)⟩

theorem iterations_bounds (m : Nat) : largeBufIterations m * 16384 < m + 16384
      ∧ m ≤ largeBufIterations m * 16384 := by
  rw [largeBufIterations, kLargeBufPayloadMaxSize]
  split <;> omega

section
variable {mem : Nat → UInt8} {addr n available : Nat} {largeBuf : TcpLargeBuffer}
  {ans : Nat → ChunkAnswer} (hbuf : kLargeBufPayloadMaxSize ≤ largeBuf.buf.length)
  (ha : largeBuf.hdr.action = kLargeBufActionInit ∨ largeBuf.hdr.action = kLargeBufActionAppend)

include hbuf

theorem length_filled (hn : n ≤ kLargeBufPayloadMaxSize) :
    (filled mem addr n largeBuf).buf.length = largeBuf.buf.length := by
  refine length_overwriteAt ?_
  rw [length_probeRead]
  omega

include ha

/-- The record put out after a read carries the bytes read. -/
theorem filled_carries (hpos : 0 < n) (hn : n ≤ kLargeBufPayloadMaxSize) :
    Carries largeBuf.hdr.key largeBuf.hdr.action (probeRead mem addr n)
      [outputRecord (filled mem addr n largeBuf) n] := by
  have hfill : (filled mem addr n largeBuf).buf = probeRead mem addr n ++ largeBuf.buf.drop n := by
    simp [filled, overwriteAt]
  have hchunk : (outputRecord (filled mem addr n largeBuf) n).chunk = probeRead mem addr n :=
    chunk_outputRecord (length_probeRead _ _ _) hn rfl ⟨_, hfill⟩
  have hsound : Sound (outputRecord (filled mem addr n largeBuf) n) := by
    refine sound_outputRecord hpos hn rfl ?_ ha
    rw [length_filled hbuf hn]
    exact hbuf
  rw [← hchunk]
  exact Carries.singleton hsound

/-- The loop carries the bytes it consumed, and consumes all there are if no
read and no output fails. -/
theorem emitLoop_emits {p b : Nat} (hn : n * 16384 < available + 16384)
    (hle : available ≤ n * 16384) :
    Emits mem (p + b * 16384) available largeBuf.hdr.key largeBuf.hdr.action
      (∀ i, ChunkAnswer.ok (ans i))
      (largeBufEmitLoop mem p ans n b largeBuf available) := by
  induction n generalizing b largeBuf available with
  | zero => exact Emits.nothing fun _ => by omega
  | succ n ih =>
    rw [succ_mul] at hn hle
    replace hn := Nat.lt_of_add_lt_add_right hn
    simp only [largeBufEmitLoop, kLargeBufPayloadMaxSize]
    split
    · split
      · generalize hr : min available 16384 = readSize
        have hmax : readSize ≤ kLargeBufPayloadMaxSize := by
          rw [kLargeBufPayloadMaxSize]
          omega
        have hrest := @ih (available - readSize) ⟨{ largeBuf.hdr with
              len := readSize, action := kLargeBufActionAppend },
            (filled mem (p + b * 16384) readSize largeBuf).buf⟩
          (by rw [length_filled hbuf hmax]; exact hbuf) (.inr rfl) (b + 1) (by omega) (by omega)
        exact Emits.cons (filled_carries hbuf ha (by omega) hmax) hrest
          (by omega) (by omega) (by omega)
      · next hout => exact Emits.nothing fun hall => absurd (hall b).2 hout
    · next hread => exact Emits.nothing fun hall => absurd (hall b).1 hread

theorem emitChunks_emits {uBuf : Nat} :
    Emits mem uBuf (min available 65536) largeBuf.hdr.key largeBuf.hdr.action
      (∀ i, ChunkAnswer.ok (ans i))
      (largeBufEmitChunks mem ans largeBuf uBuf available) := by
  have hn := iterations_bounds (min available 65536)
  have hloop := @emitLoop_emits mem _ _ _ ans hbuf ha uBuf 0 hn.1 hn.2
  exact hloop

end

/-! ## The tail calls -/

def requestKey (info : HttpInfo) (packetType direction : UInt8) : LargeBufferKey where
  traceId := info.tp.traceId
  spanId := info.tp.spanId
  packetType := packetType
  direction := direction
  connInfo := info.connInfo
  kind := kLargeBufLayerApp

section
variable (info : HttpInfo) (pt dir : UInt8) (m n : Nat)

theorem count_zero : info.count pt 0 = info := rfl

theorem requestKey_count : requestKey (info.count pt n) pt dir = requestKey info pt dir := by
  simp only [HttpInfo.count]
  repeat' split
  all_goals rfl

theorem lbBytes_count (hn : 0 < n) : (info.count pt n).lbBytes pt = u32 (info.lbBytes pt + n) := by
  simp only [HttpInfo.count, HttpInfo.lbBytes]
  rw [if_pos hn]
  by_cases hpt : pt = kPacketTypeRequest
  · simp only [if_pos hpt]
  · simp only [if_neg hpt]

theorem lbBytes_count_of_lt (hn : info.lbBytes pt + n < 4294967296) :
    (info.count pt n).lbBytes pt = info.lbBytes pt + n := by
  rcases Nat.eq_zero_or_pos n with rfl | hpos
  · rw [count_zero, add_zero]
  · rw [lbBytes_count info pt n hpos, u32_of_lt hn]

theorem count_count : (info.count pt m).count pt n = info.count pt (m + n) := by
  rcases Nat.eq_zero_or_pos m with rfl | hm
  · rw [count_zero, zero_add]
  rcases Nat.eq_zero_or_pos n with rfl | hn
  · rfl
  simp only [HttpInfo.count]
  rw [if_pos hm, if_pos hn, if_pos (show m + n > 0 by omega)]
  by_cases hpt : pt = kPacketTypeRequest
  · simp only [if_pos hpt, u32, mod_add_mod, add_assoc]
  · simp only [if_neg hpt, u32, mod_add_mod, add_assoc]

end

structure BatchEnv.Succeeds (env : BatchEnv) : Prop where
  state : env.state = true
  info : env.info = true
  scratch : env.scratch ≠ none
  chunk : ∀ i, ChunkAnswer.ok (env.chunk i)

/-- The state the program continues with after `k` bytes. -/
def advanced (st : LargeBufEmitState) (k : Nat) : LargeBufEmitState :=
  { st with
    uBuf := st.uBuf + k
    remainingBytes := st.remainingBytes - k
    batchIter := (st.batchIter + 1) % 256 }

variable {mem : Nat → UInt8} {info : HttpInfo}

/-- What one run of the program does: it carries the bytes it consumed and
counts them, it goes on from behind them if it goes on, and if nothing fails
it consumes a whole batch. -/
def ContinueSpec (mem : Nat → UInt8) (info : HttpInfo) (env : BatchEnv)
    (st : LargeBufEmitState) (r : BatchResult) : Prop :=
  ∃ k, k ≤ st.remainingBytes ∧ Carries (requestKey info st.packetType st.direction)
        (if st.batchIter = 0 then st.action else kLargeBufActionAppend)
        (probeRead mem st.uBuf k) r.records
    ∧ r.info = info.count st.packetType k
    ∧ (∀ st', r.next = some st' → 0 < k ∧ st' = advanced st k ∧ (st.batchIter + 1) % 256 < 4)
    ∧ (BatchEnv.Succeeds env → k = min st.remainingBytes 65536 ∧ (r.next = none →
            st.remainingBytes = k ∨ 4 ≤ (st.batchIter + 1) % 256))

theorem continueSpec_idle {env : BatchEnv} {st : LargeBufEmitState}
    (hzero : BatchEnv.Succeeds env → st.remainingBytes = 0) :
    ContinueSpec mem info env st ⟨[], info, none⟩ :=
  ⟨0, zero_le _, Carries.nil _ _, rfl, (fun _ h => nomatch h),
    fun hok => ⟨by rw [hzero hok]; rfl, fun _ => .inl (hzero hok)⟩⟩

theorem emitContinue_spec (env : BatchEnv) (st : LargeBufEmitState)
    (ha : st.action = kLargeBufActionInit ∨ st.action = kLargeBufActionAppend) :
    ContinueSpec mem info env st (obiLargeBufEmitContinue env mem st info) := by
  rw [obiLargeBufEmitContinue]
  split
  · next hst =>
    refine continueSpec_idle fun hok => ?_
    rcases hst with hno | hz
    · exact absurd hok.state (by simp [hno])
    · exact hz
  split
  · next hinfo => exact continueSpec_idle fun hok => absurd hok.info (by simp [hinfo])
  · cases hs : env.scratch with
    | none => exact continueSpec_idle fun hok => absurd hs hok.scratch
    | some scratch =>
      have haction : (emitHeader st info).action = kLargeBufActionInit
          ∨ (emitHeader st info).action = kLargeBufActionAppend := by
        simp only [emitHeader]
        split
        · exact ha
        · exact .inr rfl
      obtain ⟨hk, hcar, hall⟩ :=
        @emitChunks_emits mem st.remainingBytes ⟨emitHeader st info, scratch.val⟩
          env.chunk (by simp [scratch.2]) haction st.uBuf
      refine ⟨_, by omega, hcar, rfl, ?_, fun hok => ⟨hall hok.chunk, ?_⟩⟩
      · intro st' hst'
        simp only [] at hst'
        split at hst'
        · next hgo =>
          cases hst'
          exact ⟨hgo.2.1, rfl, hgo.2.2⟩
        · cases hst'
      · intro hnone
        have hall := hall hok.chunk
        simp only [] at hnone
        split at hnone
        · cases hnone
        · next hstop =>
          simp only [kLargeBufMaxBatches] at hstop
          omega

/-- All runs together. Four batches cover what a send may be asked for. -/
theorem emitBatches_carries (env : Nat → BatchEnv) (left j : Nat)
    (st : LargeBufEmitState) (hiter : st.batchIter < 4)
    (ha : st.action = kLargeBufActionInit ∨ st.action = kLargeBufActionAppend) :
    ∃ k, k ≤ st.remainingBytes ∧ Carries (requestKey info st.packetType st.direction)
          (if st.batchIter = 0 then st.action else kLargeBufActionAppend)
          (probeRead mem st.uBuf k) (emitBatches env mem left j st info).1
      ∧ (emitBatches env mem left j st info).2 = info.count st.packetType k
      ∧ ((∀ i, BatchEnv.Succeeds (env i)) → 4 - st.batchIter ≤ left →
          st.remainingBytes ≤ (4 - st.batchIter) * 65536 →
          k = st.remainingBytes) := by
  induction left generalizing j st info with
  | zero => exact ⟨0, zero_le _, Carries.nil _ _, rfl, fun _ _ _ => by omega⟩
  | succ left ih =>
    obtain ⟨k, hk, hcar, hinfo, hnext, hok⟩ := @emitContinue_spec mem info (env j) st ha
    simp only [emitBatches]
    cases hn : (obiLargeBufEmitContinue (env j) mem st info).next with
    | none =>
      refine ⟨k, hk, hcar, hinfo, fun hall _ hrem => ?_⟩
      obtain ⟨hmin, hstop⟩ := hok (hall j)
      rcases hstop hn with hdone | hlast
      · exact hdone.symm
      · omega
    | some st' =>
      obtain ⟨hpos, rfl, hiter'⟩ := hnext st' hn
      have hb : (advanced st k).batchIter = st.batchIter + 1 := by
        simp only [advanced]
        omega
      obtain ⟨k', hk', hcar', hinfo', hall'⟩ :=
        @ih (info.count st.packetType k) (j + 1) (advanced st k) (by omega) ha
      rw [hb] at hcar' hall'
      simp only [advanced] at hk' hcar' hinfo' hall'
      rw [requestKey_count] at hcar'
      simp only [hinfo]
      refine ⟨k + k', by omega, ?_, ?_, ?_⟩
      · rw [probeRead_add]
        exact hcar.append hcar' (probeRead_ne_nil _ _ _ hpos)
      · rw [← count_count]
        exact hinfo'
      · intro hall hleft hrem
        have hmin := (hok (hall j)).1
        rw [hall' hall (by omega) (by omega)]
        omega

/-! ## A send, and all sends of a direction -/

structure SendEnv.Succeeds (env : SendEnv) : Prop where
  state : env.state = true
  tailCalls : kLargeBufMaxBatches ≤ env.tailCalls
  batch : ∀ i, BatchEnv.Succeeds (env.batch i)

/-- A send carries the bytes it counts, and all the cap has room for when
nothing fails. -/
theorem httpSend_carries (cap : Nat) (env : SendEnv)
    (uBuf bytesLen : Nat) (pt dir action : UInt8)
    (ha : action = kLargeBufActionInit ∨ action = kLargeBufActionAppend) :
    ∃ k, Carries (requestKey info pt dir) action (probeRead mem uBuf k)
          (httpSendLargeBuffer cap env mem info uBuf bytesLen pt dir action).1
      ∧ (httpSendLargeBuffer cap env mem info uBuf bytesLen pt dir action).2 = info.count pt k
      ∧ (SendEnv.Succeeds env → cap ≤ kLargeBufMaxHttpCapturedBytes →
          k = min bytesLen (cap - info.lbBytes pt)) := by
  simp only [httpSendLargeBuffer, kLargeBufMaxHttpCapturedBytes]
  split
  · exact ⟨0, Carries.nil _ _, rfl, fun _ _ => by omega⟩
  split
  · obtain ⟨k, hk, hcar, hinfo, hall⟩ := @emitBatches_carries mem info
      env.batch env.tailCalls 0
      { uBuf := uBuf
        remainingBytes := min bytesLen (min (cap - info.lbBytes pt) 262144)
        batchIter := 0
        packetType := pt
        direction := dir
        action := action } (zero_lt_succ 3) ha
    simp only [] at hk hall
    refine ⟨k, hcar, hinfo, fun hok hcap => ?_⟩
    have htail := hok.tailCalls
    simp only [kLargeBufMaxBatches] at htail
    rw [hall hok.batch (by omega) (by omega)]
    omega
  · next hst => exact ⟨0, Carries.nil _ _, rfl, fun hok _ => absurd hok.state hst⟩

/-- The action a capture opens its buffer with: a first send that is empty
puts out no record, and an append comes first. -/
def openingAction (action : UInt8) : List HttpSend → UInt8
  | [] => action
  | s :: _ => if s.bytesLen = 0 then kLargeBufActionAppend else action

theorem openingAction_append (sends : List HttpSend) :
    openingAction kLargeBufActionAppend sends = kLargeBufActionAppend := by
  cases sends with
  | nil => rfl
  | cons s rest =>
    rw [openingAction]
    split <;> rfl

/-- The sends of a direction carry the bytes sent, cut at the room the cap
leaves, and the counter says how many. -/
theorem captureSends_carries {cap : Nat} {pt dir action : UInt8}
    {sends : List HttpSend} (hcap : cap ≤ kLargeBufMaxHttpCapturedBytes)
    (hok : ∀ s ∈ sends, SendEnv.Succeeds s.env)
    (ha : action = kLargeBufActionInit ∧ info.lbBytes pt < cap ∨ action = kLargeBufActionAppend)
    (hroom : info.lbBytes pt ≤ cap) :
    Carries (requestKey info pt dir) (openingAction action sends)
        ((sends.flatMap bytes).take (cap - info.lbBytes pt))
        (captureSends cap pt dir action info sends).1
      ∧ (captureSends cap pt dir action info sends).2.lbBytes pt = info.lbBytes pt
          + min (sends.flatMap bytes).length (cap - info.lbBytes pt) := by
  induction sends generalizing info action with
  | nil =>
    simp only [captureSends, flatMap_nil, take_nil, length_nil, Nat.zero_min, add_zero]
    exact ⟨Carries.nil _ _, trivial⟩
  | cons s rest ih =>
    obtain ⟨k, hcar, hinfo, hall⟩ := @httpSend_carries s.mem info cap s.env s.uBuf
      s.bytesLen pt dir action (ha.imp And.left id)
    have hk := hall (hok s mem_cons_self) hcap
    simp only [kLargeBufMaxHttpCapturedBytes] at hcap
    have hcnt := lbBytes_count_of_lt info pt k (by omega)
    obtain ⟨hcar', hbs'⟩ := @ih (info.count pt k) kLargeBufActionAppend (fun s hs => hok s
      (mem_cons_of_mem _ hs)) (.inr rfl) (by omega)
    rw [requestKey_count, openingAction_append, hcnt,
      show cap - (info.lbBytes pt + k) = cap - info.lbBytes pt - s.bytesLen by omega] at hcar'
    have hlen : s.bytes.length = s.bytesLen := length_probeRead _ _ _
    have htake : probeRead s.mem s.uBuf k = s.bytes.take (cap - info.lbBytes pt) := by
      simp [bytes, probeRead, ← map_take, hk, min_comm]
    simp only [captureSends, hinfo, flatMap_cons, take_append, length_append, hlen]
    refine ⟨?_, by rw [hbs']; omega⟩
    rw [← htake]
    rcases Nat.eq_zero_or_pos k with hz | hpos
    · subst hz
      rw [Carries.eq_nil hcar]
      have hopen : openingAction action (s :: rest) = kLargeBufActionAppend := by
        rw [openingAction]
        split
        · rfl
        · exact ha.elim (fun h => by omega) id
      rw [hopen]
      exact hcar'
    · have hopen : openingAction action (s :: rest) = action := by
        rw [openingAction, if_neg (by omega)]
      rw [hopen]
      exact hcar.append hcar' (probeRead_ne_nil _ _ _ hpos)

/-! ## The store -/

/-- The bytes stored under a key. -/
def storedBytes (s : LargeBuffers) (key : LargeBufferKey) : Option (List UInt8) :=
  (s key).map cloneBytes

/-- What filing a record does to the bytes under its key. -/
def filed (old : Option (List UInt8)) (record : TcpLargeBuffer) : Option (List UInt8) :=
  if record.hdr.action = kLargeBufActionInit then some record.chunk
  else some (old.getD [] ++ record.chunk)

variable {s : LargeBuffers} {lost : LargeBufferKey → Bool}

theorem append_other (hlost : lost key = false) (hkey : record.hdr.key ≠ key) :
    (appendTCPLargeBuffer lost s record).2 key = s key := by
  have hadd : ∀ lb, (s.dropped lost).add record.hdr.key lb key = s key := by
    intro lb
    rw [add, if_neg fun h => hkey h.symm, dropped, hlost]
    rfl
  simp only [appendTCPLargeBuffer]
  repeat' split
  · rfl
  · rfl
  · exact hadd _
  · exact hadd _
  · exact hadd _
  · show s.dropped lost key = s key
    rw [dropped, hlost]
    rfl

theorem append_same (hlost : lost record.hdr.key = false) (h : Sound record) :
    storedBytes (appendTCPLargeBuffer lost s record).2 record.hdr.key
      = filed (storedBytes s record.hdr.key) record := by
  have hget : s.dropped lost record.hdr.key = s record.hdr.key := by
    rw [dropped, hlost]
    rfl
  have hlen := h.len_le
  have hptr := h.pointer_le
  simp only [appendTCPLargeBuffer, rawLen, filed, hget]
  rw [if_neg (by omega), if_neg (by omega)]
  by_cases hinit : record.hdr.action = kLargeBufActionInit
  · rw [if_pos hinit, if_pos hinit]
    simp [storedBytes, add, cloneBytes, appendChunk, newLargeBuffer]
  rw [if_neg hinit, if_pos (h.action.resolve_left hinit), if_neg hinit]
  cases hs : s record.hdr.key <;>
    simp [storedBytes, hs, add, cloneBytes, appendChunk, newLargeBuffer]

/-- What is stored under a key depends on the records of that key only, in
their order. -/
theorem appendAll_storedBytes {lost : Nat → LargeBufferKey → Bool} {i : Nat}
    {fed : List TcpLargeBuffer} (hlost : ∀ i, lost i key = false)
    (hsound : ∀ r ∈ fed, r.hdr.key = key → Sound r) :
    storedBytes (appendAll lost i s fed) key
      = (fed.filter fun r => decide (r.hdr.key = key)).foldl filed (storedBytes s key) := by
  induction fed generalizing i s with
  | nil => rfl
  | cons r rest ih =>
    rw [appendAll, ih fun x hx => hsound x (mem_cons_of_mem _ hx)]
    by_cases hkey : r.hdr.key = key
    · rw [filter_cons_of_pos (by simpa using hkey), foldl_cons]
      have hstep := @append_same r s (lost i) (by rw [hkey]; exact hlost i)
        (hsound r mem_cons_self hkey)
      rw [hkey] at hstep
      rw [hstep]
    · rw [filter_cons_of_neg (by simpa using hkey), storedBytes,
        append_other (hlost i) hkey, storedBytes]

theorem foldl_filed_append {b : List UInt8}
    (h : ∀ r ∈ records, r.hdr.action = kLargeBufActionAppend) :
    records.foldl filed (some b) = some (b ++ records.flatMap chunk) := by
  induction records generalizing b with
  | nil => rw [foldl_nil, flatMap_nil, append_nil]
  | cons r rest ih =>
    rw [foldl_cons, filed, h r mem_cons_self, if_neg (by decide), Option.getD_some,
      ih fun x hx => h x (mem_cons_of_mem _ hx), flatMap_cons, append_assoc]

/-- The records of a capture, filed one after the other. -/
theorem foldl_filed (h : Carries key a data records) (old : Option (List UInt8)) :
    records.foldl filed old = if data = [] then old
        else some ((if a = kLargeBufActionInit then [] else old.getD []) ++ data) := by
  split
  · next hd =>
    rw [hd] at h
    rw [h.eq_nil]
    rfl
  · next hd =>
    cases records with
    | nil => exact absurd h.data.symm hd
    | cons r rest =>
      obtain ⟨hr, hrest⟩ := h.opens
      rw [foldl_cons, ← h.data, flatMap_cons, filed, hr]
      by_cases ha : a = kLargeBufActionInit
      · rw [if_pos ha, if_pos ha, foldl_filed_append hrest, nil_append]
      · rw [if_neg ha, if_neg ha, foldl_filed_append hrest, append_assoc]

theorem extract_bytes (hlost : lost key = false) :
    (extractLargeBuffer lost s key).1.map cloneBytes = storedBytes s key := by
  simp only [extractLargeBuffer, dropped, hlost, storedBytes]
  cases s key <;> rfl

/-! ## End to end -/

/-- What the Go side takes out of its store for one direction of a request is
the first `cap` bytes of what was sent in that direction, whatever records of
other requests came in between, and the kernel's counter is their number. A
direction in which nothing was sent has no buffer. -/
theorem captured_buffer_opens_payload {cap : Nat} (hpos : 0 < cap)
    (hcap : cap ≤ kLargeBufMaxHttpCapturedBytes) {info : HttpInfo}
    {pt dir : UInt8} (hnew : info.lbBytes pt = 0) {sends : List HttpSend}
    (hok : ∀ s ∈ sends, SendEnv.Succeeds s.env) {store : LargeBuffers}
    (hstart : store (requestKey info pt dir) = none ∨ ∃ s rest, sends = s :: rest ∧ 0 < s.bytesLen)
    {lost : Nat → LargeBufferKey → Bool} {lostAtEnd : LargeBufferKey → Bool}
    (hlost : ∀ i, lost i (requestKey info pt dir) = false)
    (hlostAtEnd : lostAtEnd (requestKey info pt dir) = false)
    {fed : List TcpLargeBuffer}
    (hfed : (fed.filter fun r => decide (r.hdr.key = requestKey info pt dir))
      = (captureSends cap pt dir kLargeBufActionInit info sends).1) :
    (extractLargeBuffer lostAtEnd (appendAll lost 0 store fed)
          (requestKey info pt dir)).1.map cloneBytes
        = (if sends.flatMap bytes = [] then none
          else some ((sends.flatMap bytes).take cap))
      ∧ (captureSends cap pt dir kLargeBufActionInit info sends).2.lbBytes pt
        = min (sends.flatMap bytes).length cap := by
  obtain ⟨hcar, hbs⟩ := @captureSends_carries info cap pt dir
    kLargeBufActionInit sends hcap hok (.inl ⟨rfl, by omega⟩) (by omega)
  rw [hnew, Nat.sub_zero] at hcar
  rw [hnew, zero_add] at hbs
  refine ⟨?_, hbs⟩
  have hsound : ∀ r ∈ fed, r.hdr.key = requestKey info pt dir → Sound r := by
    intro r hr hkey
    refine hcar.sound r ?_
    rw [← hfed]
    exact mem_filter.2 ⟨hr, by simpa using hkey⟩
  rw [extract_bytes hlostAtEnd, appendAll_storedBytes hlost hsound,
    hfed, foldl_filed hcar]
  by_cases hnil : sends.flatMap bytes = []
  · have hfst : store (requestKey info pt dir) = none := by
      refine hstart.resolve_right ?_
      rintro ⟨s, rest, rfl, hlen⟩
      rw [flatMap_cons, append_eq_nil_iff] at hnil
      exact probeRead_ne_nil _ _ _ hlen hnil.1
    rw [hnil, take_nil, storedBytes, hfst]
    rfl
  · rw [if_neg hnil, if_neg (by
      rw [take_eq_nil_iff]
      exact fun h => h.elim (by omega) hnil)]
    -- the buffer starts empty: the first record resets it, or there was none
    have hold : (if openingAction kLargeBufActionInit sends = kLargeBufActionInit then []
        else (storedBytes store (requestKey info pt dir)).getD []) = [] := by
      rcases hstart with hnone | ⟨s, rest, rfl, hlen⟩
      · rw [storedBytes, hnone]
        split <;> rfl
      have hopen : openingAction kLargeBufActionInit (s :: rest)
          = kLargeBufActionInit := if_neg (by omega)
      rw [if_pos hopen]
    rw [hold, nil_append]

/-- A kernel in which nothing fails, and whose scratch memory is clear. -/
def quietEnv : SendEnv where
  state := true
  tailCalls := 4
  batch := fun _ =>
    { state := true
      info := true
      scratch := some (zeroId _)
      chunk := fun _ => ⟨true, true⟩ }

theorem quietEnv_succeeds : SendEnv.Succeeds quietEnv where
  state := rfl
  tailCalls := le_refl _
  batch := fun _ => ⟨rfl, rfl, by simp [quietEnv], fun _ => ⟨rfl, rfl⟩⟩

def sampleInfo : HttpInfo where
  connInfo := ⟨zeroId 16, zeroId 16, 1234, 80⟩
  tp := sampleTp
  lbReqBytes := 0
  lbResBytes := 0
  hasLargeBuffers := false

/-- Two sends of three and two bytes out of a memory that counts. -/
def sampleSends : List HttpSend :=
  [⟨fun i => UInt8.ofNat i, 0, 3, quietEnv⟩, ⟨fun i => UInt8.ofNat i, 3, 2, quietEnv⟩]

theorem captured_buffer_opens_payload_sample : (extractLargeBuffer (fun _ => false)
          (appendAll (fun _ _ => false) 0 (fun _ => none)
            (captureSends 4 1 0 kLargeBufActionInit sampleInfo sampleSends).1)
          (requestKey sampleInfo 1 0)).1.map cloneBytes
        = some [0, 1, 2, 3]
      ∧ (captureSends 4 1 0 kLargeBufActionInit sampleInfo sampleSends).2.lbBytes 1 = 4 := by
  have hok : ∀ s ∈ sampleSends, SendEnv.Succeeds s.env := by
    intro s hs
    rcases mem_pair.1 hs with rfl | rfl <;> exact quietEnv_succeeds
  have hkeys := (@captureSends_carries sampleInfo 4 1 0 kLargeBufActionInit
    sampleSends (by decide) hok (.inl ⟨rfl, by decide⟩) (by decide)).1.key
  obtain ⟨hbuffer, hcounter⟩ := @captured_buffer_opens_payload 4 (by decide) (by decide) sampleInfo
    1 0 rfl sampleSends hok (fun _ => none) (.inl rfl) (fun _ _ => false) (fun _ => false) (fun _ =>
    rfl) rfl (captureSends 4 1 0 kLargeBufActionInit sampleInfo sampleSends).1 (filter_eq_self.2 fun
    r hr => decide_eq_true (hkeys r hr))
  exact ⟨hbuffer.trans rfl, hcounter.trans rfl⟩

end Obi.Refine
