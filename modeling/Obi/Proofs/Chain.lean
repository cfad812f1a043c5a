import Obi.Ref.Extender

/-!
# What one hop of the extender can do

Every program is a cascade of early returns around one or two tail calls. This
file reads each of them once and says what the rest of the development needs:
which program a hop can enter, what it leaves in the counters that bound the
chain, and what it leaves in the socket's storage. Only `detect_h2` and
`sniff_h2` touch the connection flag; `SameSend` is what all the others keep.
-/

namespace Obi.Refine
open Lib Ref Chain

/-- Two points of one send between which the socket was not reclassified. -/
structure SameSend (s s' : Chain) : Prop where
  cfg : s'.cfg = s.cfg
  pConn : s'.ctx.pConn = s.ctx.pConn
  connFlag : s'.sk.connFlag = s.sk.connFlag

theorem SameSend.refl (s : Chain) : SameSend s s := ⟨rfl, rfl, rfl⟩

variable {s' t : Chain} {p p₀ : DetectPoint} {state : H2SockState} {q : Prog} {send : Send}

theorem SameSend.h2SockState {s : Chain} (h : SameSend s s') : s'.h2SockState = s.h2SockState := by
  rw [Chain.h2SockState, Chain.h2SockState, h.connFlag]

/-- A program that returns instead of tail-calling leaves the frame counter
alone. -/
def StopsAt (s : Chain) (r : Exit × Chain) : Prop :=
  (∃ q, r.1 = .tailCall q) ∨ r.2.ctx.h2Frames = s.ctx.h2Frames

/-! ## Storage -/

theorem setSkFlag_frame (s : Chain) (env : HopEnv) (set : H2SkFlags → H2SkFlags) :
    (s.setH2SkFlag env set).cfg = s.cfg ∧ (s.setH2SkFlag env set).msg = s.msg ∧
      (s.setH2SkFlag env set).ctx = s.ctx ∧
      (s.setH2SkFlag env set).sk.connFlag = s.sk.connFlag := by
  unfold setH2SkFlag
  split
  · exact ⟨rfl, rfl, rfl, rfl⟩
  · split <;> exact ⟨rfl, rfl, rfl, rfl⟩

theorem setSkFlag_sameSend (s : Chain) (env : HopEnv) (set : H2SkFlags → H2SkFlags) :
    SameSend s (s.setH2SkFlag env set) := by
  obtain ⟨hcfg, -, hctx, hflag⟩ := setSkFlag_frame s env set
  exact ⟨hcfg, by rw [hctx], hflag⟩

theorem setSockState_frame (s : Chain) (env : HopEnv) (state : H2SockState) :
    (s.setH2SockState env state).cfg = s.cfg ∧ (s.setH2SockState env state).msg = s.msg ∧
      (s.setH2SockState env state).ctx = s.ctx := by
  unfold setH2SockState
  split <;> exact ⟨rfl, rfl, rfl⟩

/-- A state is stored unless the entry is missing and cannot be created. -/
theorem setSockState_state {s : Chain} {env : HopEnv}
    (h : s.h2SockState ≠ .none ∨ env.create state = true) :
    (s.setH2SockState env state).h2SockState = state := by
  unfold setH2SockState
  rw [if_pos]
  · rfl
  rcases h with h | h
  · cases hf : s.sk.connFlag with
    | none => rw [Chain.h2SockState, hf] at h; exact absurd rfl h
    | some _ => rfl
  · rw [h, Bool.or_true]

/-! ## `detect_h2` -/

/-- The frame `detect_h2` hands to the inject chain, and the scan it sets up. -/
structure HandedOver (s : Chain) : Prop where
  candidatePos : s.ctx.h2TpCandidatePos = 0
  retries : s.ctx.h2TpRetries = 0
  tpPresent : s.ctx.tpPresent = false
  scanExhausted : s.ctx.scanExhausted = false
  frame : ∃ ans f, parseH2FrameAt ans s.msg s.ctx.h2FrameOffset s.msg.size = some f ∧
    f.isHeadersEnd = true ∧ s.ctx.h2PayloadLen = f.payloadLen ∧
    s.ctx.h2HpackOffset = f.hpackOffset ∧ s.ctx.h2HpackLen = f.hpackLen

/-- What a scan for frames can end in. -/
structure ScanEnd (s : Chain) (r : Exit × Chain) : Prop where
  sameSend : SameSend s r.2
  msg : r.2.msg = s.msg
  stops : StopsAt s r
  tail : ∀ q, r.1 = .tailCall q → (q = .detectH2 ∧ r.2.ctx.h2Frames = (s.ctx.h2Frames + 1) % 256) ∨
      (q = .findExistingH2Tp ∧ r.2.ctx.h2Frames = s.ctx.h2Frames ∧ HandedOver r.2)

theorem ScanEnd.pass (s : Chain) : ScanEnd s (.pass, s) :=
  ⟨.refl s, rfl, .inr rfl, fun _ hq => by cases hq⟩

theorem ScanEnd.resume {s : Chain} {nextPos : Nat} (ht : SameSend s t)
    (hmsg : t.msg = s.msg) (hfrs : t.ctx.h2Frames = s.ctx.h2Frames) :
    ScanEnd s (h2ResumeAfter t nextPos) := by
  refine ⟨⟨ht.cfg, ht.pConn, ht.connFlag⟩, hmsg, .inl ⟨_, rfl⟩, fun q hq => ?_⟩
  cases hq
  exact .inl ⟨rfl, by rw [← hfrs]; rfl⟩

theorem detectHeaders_end {env : HopEnv} {s : Chain} {pos : Nat} {f : H2FrameInfo}
    {ans : ParseAnswers} (hf : parseH2FrameAt ans s.msg pos s.msg.size = some f)
    (hend : f.isHeadersEnd = true) : ScanEnd s (detectHeaders env s pos f) := by
  unfold detectHeaders
  simp only []
  generalize ht : (if (h2HeadersOpener env.opener s.msg f.hpackOffset s.msg.size).any
    h2HpackOpensResponse then s.setServer env else s) = t
  have hframe : SameSend s t ∧ t.msg = s.msg ∧ t.ctx = s.ctx := by
    subst ht
    split
    · obtain ⟨-, hmsg, hctx, -⟩ := setSkFlag_frame s env fun g => { g with server := true }
      exact ⟨setSkFlag_sameSend _ _ _, hmsg, hctx⟩
    · exact ⟨.refl s, rfl, rfl⟩
  obtain ⟨hsame, hmsg, hctx⟩ := hframe
  split
  · exact .resume hsame hmsg (by rw [hctx])
  split
  · exact .resume hsame hmsg (by rw [hctx])
  split
  · exact .resume ⟨hsame.cfg, hsame.pConn, hsame.connFlag⟩ hmsg (by rw [hctx])
  refine ⟨⟨hsame.cfg, hsame.pConn, hsame.connFlag⟩, hmsg, .inl ⟨_, rfl⟩, fun q hq => ?_⟩
  cases hq
  refine .inr ⟨rfl, by rw [hctx], rfl, rfl, rfl, rfl, ans, f, ?_, hend, rfl, rfl, rfl⟩
  rw [hmsg]
  exact hf

variable (env : HopEnv)

theorem detectFrames_end (left i : Nat) (s : Chain) (pos : Nat) :
    ScanEnd s (detectFrames env left i s pos) := by
  induction left generalizing i s pos with
  | zero =>
    rw [detectFrames]
    split
    · exact .resume (.refl s) rfl rfl
    · exact .pass s
  | succ left ih =>
    rw [detectFrames]
    split
    · exact .pass s
    · next f hf =>
      split
      · exact .pass s
      · next framing _ =>
        split
        · next hend =>
          have h := @detectHeaders_end env
            { s with ctx := { s.ctx with h2Framing := framing } } pos f _ hf hend
          exact ⟨⟨h.sameSend.cfg, h.sameSend.pConn, h.sameSend.connFlag⟩, h.msg, h.stops, h.tail⟩
        have h := ih (i + 1) { s with ctx := { s.ctx with h2Framing := framing } }
          (u32 (pos + kH2FrameHeaderLen + f.payloadLen))
        exact ⟨⟨h.sameSend.cfg, h.sameSend.pConn, h.sameSend.connFlag⟩, h.msg, h.stops, h.tail⟩

/-- The message opens with the four bytes the preface check looks at. -/
def OpensPreface (m : SkMsg) : Prop := slice m.bytes 0 4 = [0x50, 0x52, 0x49, 0x20]

theorem opensPreface_of_view {m : SkMsg} {ans : PullAnswer} {d : Option (List UInt8)}
    (h : m.pullView 0 kH2PrefaceCheckLen kH2PrefaceCheckLen ans = some d)
    (hpre : isHttp2Preface d = true) : OpensPreface m := by
  rw [isHttp2Preface, beq_iff_eq] at hpre
  rw [hpre] at h
  exact (SkMsg.pullView_some h).1.symm

theorem detectPreface_ok {env : HopEnv} {s : Chain} (h : detectPreface env s = .ok p) :
    p = ⟨s, s.ctx.h2ScanPos, s.h2SockState⟩ ∨
      (p = ⟨s.setH2SockState env .preface, kH2PrefaceLen, .preface⟩ ∧
        s.h2SockState = .none ∧ OpensPreface s.msg) := by
  unfold detectPreface at h
  simp only [] at h
  split at h
  · next hfst =>
    split at h
    · exact .inl (Except.ok.inj h).symm
    · next d hd =>
      split at h
      · next hpre =>
        split at h
        · exact .inr ⟨(Except.ok.inj h).symm, hfst.2.1, opensPreface_of_view hd hpre⟩
        · cases h
      · exact .inl (Except.ok.inj h).symm
  · exact .inl (Except.ok.inj h).symm

theorem detectSettings_ok {env : HopEnv} {p' : DetectPoint} (h : detectSettings env p = .ok p') :
    (p' = p ∧ p.state ≠ .preface) ∨ (p.state = .preface ∧ ∃ sf pos,
        parseH2FrameAt env.settings p.chain.msg p.pos p.chain.msg.size = some sf ∧
        sf.ftype = kH2FrameSettings ∧
        p' = ⟨p.chain.setH2SockState env .confirmed, pos, .confirmed⟩) := by
  unfold detectSettings at h
  split at h
  · next hst =>
    split at h
    · cases h
    · next sf hsf =>
      split at h
      · cases h
      · next htype =>
        simp only [] at h
        split at h
        · cases h
        · exact .inr ⟨hst, sf, _, hsf, not_not.mp htype, (Except.ok.inj h).symm⟩
  · next hst => exact .inl ⟨(Except.ok.inj h).symm, hst⟩

theorem detectPreface_frame {env : HopEnv} {s : Chain} (h : detectPreface env s = .ok p) :
    p.chain.cfg = s.cfg ∧ p.chain.msg = s.msg ∧ p.chain.ctx = s.ctx := by
  rcases detectPreface_ok h with rfl | ⟨rfl, -⟩
  · exact ⟨rfl, rfl, rfl⟩
  · exact setSockState_frame s env .preface

/-- How `detect_h2` reaches a tail call: into the sniffer on probation, or past
both checks into the frame loop. -/
theorem detectH2_tail {env : HopEnv} {s : Chain} (h : detectH2 env s = (.tailCall q, s')) :
    s.ctx.h2Frames < 4 ∧ ¬ (s.ctx.h2ScanPos = 0 ∧ s.ctx.pConn.isSslConnection = true) ∧
      ((q = .sniffH2 ∧ s' = s ∧ s.h2SockState = .probation) ∨
        (s.h2SockState ≠ .probation ∧ ∃ p₀ p, detectPreface env s = .ok p₀ ∧
          detectSettings env p₀ = .ok p ∧ p.state = .confirmed ∧
          ScanEnd p.chain (.tailCall q, s'))) := by
  unfold detectH2 at h
  split at h
  · cases h
  split at h
  · cases h
  next hfrs =>
  split at h
  · cases h
  split at h
  · cases h
  next hssl =>
  refine ⟨by simpa using hfrs, hssl, ?_⟩
  split at h
  · next hprob =>
    cases h
    exact .inl ⟨rfl, rfl, hprob⟩
  next hprob =>
  split at h
  · cases h
  next p₀ hp₀ =>
  split at h
  · cases h
  split at h
  · cases h
  next p hp =>
  split at h
  · cases h
  next hst =>
  split at h
  · cases h
  refine .inr ⟨hprob, p₀, p, hp₀, hp, not_not.mp hst, ?_⟩
  rw [← h]
  exact detectFrames_end env _ _ _ _

/-- The checks before the frame loop leave the message and the context alone. -/
theorem detectPoint_frame {env : HopEnv} {s : Chain}
    (h0 : detectPreface env s = .ok p₀) (h : detectSettings env p₀ = .ok p) :
    p.chain.cfg = s.cfg ∧ p.chain.msg = s.msg ∧ p.chain.ctx = s.ctx := by
  have hp₀ := detectPreface_frame h0
  rcases detectSettings_ok h with ⟨rfl, -⟩ | ⟨-, -, -, -, -, rfl⟩
  · exact hp₀
  · obtain ⟨h1, h2, h3⟩ := setSockState_frame p₀.chain env .confirmed
    exact ⟨h1.trans hp₀.1, h2.trans hp₀.2.1, h3.trans hp₀.2.2⟩

theorem detectPoint_not_probation {env : HopEnv} {s : Chain}
    (h0 : detectPreface env s = .ok p₀) (h : detectSettings env p₀ = .ok p)
    (hs : s.h2SockState ≠ .probation) : p.chain.h2SockState ≠ .probation := by
  have step : ∀ (t : Chain) state, state ≠ .probation →
      t.h2SockState ≠ .probation → (t.setH2SockState env state).h2SockState ≠ .probation := by
    intro t state hst ht
    unfold setH2SockState
    split
    · exact hst
    · exact ht
  have hp₀ : p₀.chain.h2SockState ≠ .probation := by
    rcases detectPreface_ok h0 with rfl | ⟨rfl, -⟩
    · exact hs
    · exact step s .preface (by decide) hs
  rcases detectSettings_ok h with ⟨rfl, -⟩ | ⟨-, -, -, -, -, rfl⟩
  · exact hp₀
  · exact step _ .confirmed (by decide) hp₀

theorem detectPreface_error {env : HopEnv} {s : Chain} (h : detectPreface env s = .error s') :
    s.h2SockState = .none ∧ OpensPreface s.msg ∧ s' = s.setH2SockState env .preface := by
  unfold detectPreface at h
  simp only [] at h
  split at h
  · next hfst =>
    split at h
    · cases h
    · next d hd =>
      split at h
      · next hpre =>
        split at h
        · cases h
        · exact ⟨hfst.2.1, opensPreface_of_view hd hpre, (Except.error.inj h).symm⟩
      · cases h
  · cases h

theorem detectSettings_error {env : HopEnv} (h : detectSettings env p = .error s') :
    s' = p.chain ∨ (p.state = .preface ∧ (s' = p.chain.setH2SockState env .rejected ∨
        s' = p.chain.setH2SockState env .confirmed)) := by
  unfold detectSettings at h
  split at h
  · next hst =>
    split at h
    · exact .inl (Except.error.inj h).symm
    split at h
    · exact .inr ⟨hst, .inl (Except.error.inj h).symm⟩
    simp only [] at h
    split at h
    · exact .inr ⟨hst, .inr (Except.error.inj h).symm⟩
    · cases h
  · cases h

theorem StopsAt.set {s : Chain} {env : HopEnv} (ht : t.ctx = s.ctx) :
    StopsAt s (.pass, t.setH2SockState env state) := by
  obtain ⟨-, -, hctx⟩ := setSockState_frame t env state
  exact .inr (by rw [hctx, ht])

theorem detectH2_stops (s : Chain) : StopsAt s (detectH2 env s) := by
  unfold detectH2
  split
  · exact .inr rfl
  split
  · exact .inr rfl
  split
  · exact .inr rfl
  split
  · exact .set rfl
  split
  · exact .inl ⟨_, rfl⟩
  split
  · next s' h =>
    obtain ⟨-, -, rfl⟩ := detectPreface_error h
    exact .set rfl
  next p₀ h0 =>
  obtain ⟨-, -, hctx0⟩ := detectPreface_frame h0
  split
  · exact .inr (by rw [hctx0])
  split
  · next s' h =>
    rcases detectSettings_error h with rfl | ⟨-, rfl | rfl⟩
    · exact .inr (by rw [hctx0])
    · exact .set hctx0
    · exact .set hctx0
  next p h =>
  obtain ⟨-, -, hctx⟩ := detectPoint_frame h0 h
  split
  · exact .inr (by rw [hctx])
  split
  · exact .inr (by rw [hctx])
  rcases (detectFrames_end env kH2MaxFrameScan 0 p.chain p.pos).stops with hq | hq
  · exact .inl hq
  · exact .inr (hq.trans (by rw [hctx]))

/-! ## `sniff_h2` -/

theorem sniffedBlock_frame (s : Chain) (hpackAt : Nat) :
    SameSend s (sniffedBlockIsH2 env s hpackAt).2 ∧
      (sniffedBlockIsH2 env s hpackAt).2.ctx = s.ctx := by
  unfold sniffedBlockIsH2
  split
  · exact ⟨.refl s, rfl⟩
  split
  · exact ⟨setSkFlag_sameSend _ _ _, (setSkFlag_frame _ _ _).2.2.1⟩
  · exact ⟨.refl s, rfl⟩

theorem sniffH2_stops (s : Chain) : StopsAt s (sniffH2 env s) := by
  unfold sniffH2
  simp only []
  split
  · split
    · exact .inr rfl
    · exact .set rfl
    · exact .inl ⟨_, rfl⟩
  split
  · have hctx := (sniffedBlock_frame env s
      (sniffHttp2Frames env.sniff s.msg !s.h2SockState == .probation).2).2
    split
    · exact .set hctx
    · exact .inr (by rw [hctx])
  · exact .inr rfl

theorem sniffH2_tail {env : HopEnv} {s : Chain} (h : sniffH2 env s = (.tailCall q, s')) :
    q = .detectH2 ∧ s.h2SockState = .probation ∧ s' = s.setH2SockState env .confirmed := by
  unfold sniffH2 at h
  simp only [] at h
  split at h
  · next hprob =>
    split at h
    · cases h
    · cases h
    · cases h
      exact ⟨rfl, by simpa using hprob, rfl⟩
  split at h
  · split at h <;> cases h
  · cases h

/-! ## The inject chain -/

theorem findExisting_tail {env : HopEnv} {s : Chain}
    (h : findExistingH2Tp env s = (.tailCall q, s')) :
    q = .validateH2Tp ∧ ∃ c, s' = s.setCandidate c := by
  unfold findExistingH2Tp at h
  simp only [] at h
  split at h
  · cases h
  split at h
  · cases h; exact ⟨rfl, _, rfl⟩
  · split at h <;> (cases h; exact ⟨rfl, _, rfl⟩)

theorem findExisting_sameSend (s : Chain) : SameSend s (findExistingH2Tp env s).2 := by
  unfold findExistingH2Tp
  simp only []
  split
  · exact .refl s
  split
  · exact ⟨rfl, rfl, rfl⟩
  · split <;> exact ⟨rfl, rfl, rfl⟩

/-- Where a validated candidate sends the chain. -/
structure ValidateEnd (s : Chain) (r : Exit × Chain) : Prop where
  sameSend : SameSend s r.2
  stops : StopsAt s r
  tail : ∀ q, r.1 = .tailCall q → (q = .createH2Tp ∧ r.2.ctx.h2Frames = s.ctx.h2Frames) ∨
      (q = .findExistingH2Tp ∧ r.2.ctx.h2Frames = s.ctx.h2Frames ∧
        s.ctx.h2TpRetries = 0 ∧ r.2.ctx.h2TpRetries = 1) ∨
      (q = .detectH2 ∧ r.2.ctx.h2Frames = (s.ctx.h2Frames + 1) % 256)

theorem ValidateEnd.create {s : Chain} : ValidateEnd s (.tailCall .createH2Tp, s) :=
  ⟨.refl s, .inr rfl, fun _ hq => by cases hq; exact .inl ⟨rfl, rfl⟩⟩

theorem retryH2Tp_end (s : Chain) (next : Nat) : ValidateEnd s (retryH2Tp s next) := by
  unfold retryH2Tp
  split
  · exact .create
  split
  · exact ⟨⟨rfl, rfl, rfl⟩, .inr rfl, fun _ hq => by cases hq; exact .inl ⟨rfl, rfl⟩⟩
  · next hretry =>
    have hzero : s.ctx.h2TpRetries = 0 := by
      simp only [kH2MaxTpRetries] at hretry
      omega
    refine ⟨⟨rfl, rfl, rfl⟩, .inr rfl, fun _ hq => ?_⟩
    cases hq
    refine .inr (.inl ⟨rfl, rfl, hzero, ?_⟩)
    rw [hzero]

theorem adoptH2Tp_end (s : Chain) (off : Nat) (tp : TpInfo) :
    ValidateEnd s (adoptH2Tp env s off tp) :=
  ⟨⟨rfl, rfl, rfl⟩, .inl ⟨_, rfl⟩, fun _ hq => by cases hq; exact .inr (.inr ⟨rfl, rfl⟩)⟩

theorem validateProg_end (s : Chain) : ValidateEnd s (validateH2TpProg env s) := by
  have pass : ValidateEnd s (.pass, s) := ⟨.refl s, .inr rfl, fun _ hq => by cases hq⟩
  unfold validateH2TpProg
  simp only []
  split
  · exact pass
  split
  · exact .create
  split
  · exact pass
  split
  · exact .create
  split
  · exact .create
  split
  · exact .create
  split
  · exact retryH2Tp_end s _
  · obtain ⟨hcfg, -, hctx, hflag⟩ := setSkFlag_frame
      { s with ctx := { s.ctx with tpPresent := true } } env fun f => { f with appTp := true }
    refine ⟨⟨hcfg, ?_, hflag⟩, .inl ⟨_, rfl⟩, fun _ hq => ?_⟩
    · rw [setAppTp, hctx]
    · cases hq
      refine .inl ⟨rfl, ?_⟩
      rw [setAppTp, hctx]
  · split
    · split
      · exact adoptH2Tp_end env s _ _
      · exact retryH2Tp_end s _
    split
    · exact adoptH2Tp_end env s _ _
    · exact retryH2Tp_end s _

/-- What the two last programs of the inject chain can end in: the next one, if
there is one, or the next frame. -/
structure InjectEnd (next : Option Prog) (s : Chain) (r : Exit × Chain) : Prop where
  sameSend : SameSend s r.2
  stops : StopsAt s r
  tail : ∀ q, r.1 = .tailCall q → (next = some q ∧ r.2.ctx.h2Frames = s.ctx.h2Frames) ∨
      (q = .detectH2 ∧ r.2.ctx.h2Frames = (s.ctx.h2Frames + 1) % 256)

theorem InjectEnd.pass {next : Option Prog} {s : Chain} : InjectEnd next s (.pass, s) :=
  ⟨.refl s, .inr rfl, fun _ hq => by cases hq⟩

section
variable (s : Chain)
include s

theorem chooseH2Tp_frame (existing : Option TpInfoPid) :
    (chooseH2Tp env s existing).msg = s.msg ∧ (chooseH2Tp env s existing).cfg = s.cfg ∧
      (chooseH2Tp env s existing).sk = s.sk ∧
      ∃ parentTp, (chooseH2Tp env s existing).ctx = { s.ctx with parentTp := parentTp } := by
  cases existing with
  | some tp => exact ⟨rfl, rfl, rfl, s.ctx.parentTp, rfl⟩
  | none => exact ⟨rfl, rfl, rfl, env.parentTp, rfl⟩

theorem createH2Tp_end : InjectEnd (some .writeH2Traceparent) s (createH2Tp env s) := by
  unfold createH2Tp
  simp only []
  split
  · exact .pass
  split
  · exact ⟨⟨rfl, rfl, rfl⟩, .inl ⟨_, rfl⟩, fun _ hq => by cases hq; exact .inr ⟨rfl, rfl⟩⟩
  generalize hex : (getTpInfoPid env.outgoing s.ctx.pConn.pid).filter _ = existing
  obtain ⟨-, hcfg, hsk, parentTp, hctx⟩ := chooseH2Tp_frame env { s with tpInfo := .zero } existing
  have hsame : SameSend s (chooseH2Tp env { s with tpInfo := .zero } existing) :=
    ⟨hcfg, by rw [hctx], by rw [hsk]⟩
  split
  · refine ⟨hsame, .inl ⟨_, rfl⟩, fun _ hq => ?_⟩
    cases hq
    exact .inl ⟨rfl, by rw [hctx]⟩
  · exact ⟨hsame, .inr (by rw [hctx]), fun _ hq => by cases hq⟩

theorem writeH2Tp_end : InjectEnd none s (writeH2Tp env s) := by
  have resume : ∀ t n, SameSend s t →
      t.ctx.h2Frames = s.ctx.h2Frames → InjectEnd none s (h2ResumeAfter t n) := by
    intro t n ht hfrs
    refine ⟨⟨ht.cfg, ht.pConn, ht.connFlag⟩, .inl ⟨_, rfl⟩, fun _ hq => ?_⟩
    cases hq
    exact .inr ⟨rfl, by rw [← hfrs]; rfl⟩
  unfold writeH2Tp
  split
  · exact .pass
  split
  · exact resume s _ (.refl s) rfl
  split
  · exact .pass
  split
  · exact .pass
  split
  · exact .pass
  split
  · exact ⟨⟨rfl, rfl, rfl⟩, .inr rfl, fun _ hq => by cases hq⟩
  · exact resume _ _ ⟨rfl, rfl, rfl⟩ rfl
  · exact resume _ _ ⟨rfl, rfl, rfl⟩ rfl

/-! ## The HTTP/1 programs -/

def isHttp1 : Prog → Bool
  | .findExistingTp | .parseExistingTp | .createTp | .writeMsgTraceparent => true
  | _ => false

/-- What the HTTP/1 programs can end in. -/
structure Http1End (s : Chain) (r : Exit × Chain) : Prop where
  sameSend : SameSend s r.2
  stops : StopsAt s r
  tail : ∀ q, r.1 = .tailCall q → isHttp1 q = true

theorem findExistingTp_end : Http1End s (findExistingTp env s) := by
  have pass : Http1End s (.pass, s) := ⟨.refl s, .inr rfl, fun _ hq => by cases hq⟩
  unfold findExistingTp
  simp only []
  split
  · exact pass
  split
  · exact pass
  split
  · exact pass
  split
  · exact ⟨.refl s, .inl ⟨_, rfl⟩, fun _ hq => by cases hq; rfl⟩
  · exact ⟨⟨rfl, rfl, rfl⟩, .inl ⟨_, rfl⟩, fun _ hq => by cases hq; rfl⟩
  · split <;> exact ⟨⟨rfl, rfl, rfl⟩, .inl ⟨_, rfl⟩, fun _ hq => by cases hq; rfl⟩

theorem createTp_end : Http1End s (createTp env s) := by
  unfold createTp
  simp only []
  split
  · exact ⟨.refl s, .inr rfl, fun _ hq => by cases hq⟩
  split
  · exact ⟨⟨rfl, rfl, rfl⟩, .inl ⟨_, rfl⟩, fun _ hq => by cases hq; rfl⟩
  · exact ⟨⟨rfl, rfl, rfl⟩, .inr rfl, fun _ hq => by cases hq⟩

theorem parseTp_end : Http1End s (parseExistingTp env s) := by
  have pass : Http1End s (.pass, s) := ⟨.refl s, .inr rfl, fun _ hq => by cases hq⟩
  unfold parseExistingTp
  simp only []
  split
  · exact pass
  split
  · exact pass
  split
  · exact pass
  · exact ⟨⟨rfl, rfl, rfl⟩, .inr rfl, fun _ hq => by cases hq⟩

theorem writeMsgTp_end : Http1End s (writeMsgTp env s) := by
  unfold writeMsgTp
  split <;> exact ⟨⟨rfl, rfl, rfl⟩, .inr rfl, fun _ hq => by cases hq⟩

end

/-! ## The entry program -/

/-- What the entry program leaves: fresh counters, and the message and the
socket's storage as they were. -/
structure EntryEnd (cfg : Config) (send : Send) (sk : SkStorage) (r : Exit × Chain) : Prop where
  cfg : r.2.cfg = cfg
  sk : r.2.sk = sk
  bytes : r.2.msg.bytes = send.msg.bytes
  tail : ∀ q, r.1 = .tailCall q →
    (q = .detectH2 ∨ (q = .sniffH2 ∧ r.2.h2SockState = .none) ∨ isHttp1 q = true) ∧
      r.2.ctx.pConn = send.pConn ∧ r.2.ctx.h2ScanPos = 0 ∧ r.2.ctx.h2Frames = 0

theorem wrapTraceparent_tail {s : Chain} (h : wrapHttp2Traceparent send s = .tailCall q) :
    q = .detectH2 ∨ (q = .sniffH2 ∧ s.h2SockState = .none) := by
  unfold wrapHttp2Traceparent at h
  split at h
  · cases h
  split at h
  · cases h
  next hrej =>
  split at h
  · cases h; exact .inl rfl
  next hsock =>
  split at h
  · cases h
  split at h
  · cases h
  split at h
  · cases h; exact .inl rfl
  split at h
  · cases h
  · cases h
    refine .inr ⟨rfl, ?_⟩
    -- neither rejected nor in one of the states that are scanned
    unfold isH2Socket at hsock
    cases hst : s.h2SockState <;> simp [hst] at hsock hrej ⊢

theorem pullData_bytes (m : SkMsg) (start stop : Nat) (ans : PullAnswer) :
    ((m.pullData start stop ans).getD m).bytes = m.bytes := by
  cases h : m.pullData start stop ans with
  | none => rfl
  | some m' => exact (SkMsg.pullData_some h).1

theorem dispatch_end {cfg : Config} {sk : SkStorage} {s : Chain}
    (hcfg : s.cfg = cfg) (hsk : s.sk = sk) (hbs : s.msg.bytes = send.msg.bytes)
    (hp : s.ctx.pConn = send.pConn) (hpos : s.ctx.h2ScanPos = 0)
    (hfrs : s.ctx.h2Frames = 0) :
    EntryEnd cfg send sk (dispatch send s) := by
  have hpull : ((s.msg.pullData 0 s.msg.size send.pull).getD s.msg).bytes = send.msg.bytes :=
    (pullData_bytes _ _ _ _).trans hbs
  unfold dispatch
  simp only []
  split
  · exact ⟨hcfg, hsk, hpull, fun q hq => by cases hq; exact ⟨.inl rfl, hp, hpos, hfrs⟩⟩
  split
  · exact ⟨hcfg, hsk, hbs, fun q hq => by cases hq⟩
  split
  · exact ⟨hcfg, hsk, hpull, fun q hq => by cases hq; exact ⟨.inl rfl, hp, hpos, hfrs⟩⟩
  split
  · exact ⟨hcfg, hsk, hpull, fun q hq => by cases hq⟩
  split
  · refine ⟨hcfg, hsk, hpull, fun q hq => ?_⟩
    cases hq
    exact ⟨.inr (.inr rfl), hp, hpos, hfrs⟩
  refine ⟨hcfg, hsk, hpull, fun q hq => ⟨?_, hp, hpos, hfrs⟩⟩
  rcases wrapTraceparent_tail hq with rfl | hsniff
  · exact .inl rfl
  · exact .inr (.inl hsniff)

theorem existingPid_frame {s : Chain} {tpPid : TpInfoPid}
    {e : Option Exit} (h : handleExistingTpPid send s tpPid = (e, s')) :
    s'.cfg = s.cfg ∧ s'.sk = s.sk ∧ s'.msg.bytes = s.msg.bytes ∧ s'.ctx = s.ctx ∧
      ∀ q, e = some (.tailCall q) → q = .writeMsgTraceparent := by
  have hpull : ((s.msg.pullData 0 s.msg.size send.pullExisting).getD s.msg).bytes = s.msg.bytes :=
    pullData_bytes _ _ _ _
  unfold handleExistingTpPid at h
  simp only [] at h
  split at h
  · cases h; exact ⟨rfl, rfl, rfl, rfl, fun q hq => by cases hq⟩
  split at h
  · cases h; exact ⟨rfl, rfl, hpull, rfl, fun q hq => by cases hq⟩
  split at h
  · split at h
    · cases h; exact ⟨rfl, rfl, hpull, rfl, fun q hq => by cases hq; rfl⟩
    · cases h; exact ⟨rfl, rfl, hpull, rfl, fun q hq => by cases hq⟩
  · cases h; exact ⟨rfl, rfl, hpull, rfl, fun q hq => by cases hq⟩

theorem extender_end (cfg : Config) (send : Send) (sk : SkStorage) :
    EntryEnd cfg send sk (obiPacketExtender cfg send sk) := by
  unfold obiPacketExtender
  simp only []
  split
  · exact ⟨rfl, rfl, rfl, fun q hq => by cases hq⟩
  split
  · exact ⟨rfl, rfl, rfl, fun q hq => by cases hq⟩
  split
  · exact dispatch_end rfl rfl rfl rfl rfl rfl
  next tpPid _ =>
  split
  · exact dispatch_end rfl rfl rfl rfl rfl rfl
  split
  · next exit s hs =>
    obtain ⟨hcfg, hsk, hbs, hctx, hq⟩ := existingPid_frame hs
    refine ⟨hcfg, hsk, hbs, fun q hexit => ?_⟩
    cases hexit
    cases hq q rfl
    exact ⟨.inr (.inr rfl), by rw [hctx], by rw [hctx], by rw [hctx]⟩
  · next s hs =>
    obtain ⟨hcfg, hsk, hbs, hctx, -⟩ := existingPid_frame hs
    exact dispatch_end hcfg hsk hbs (by rw [hctx]) (by rw [hctx]) (by rw [hctx])

end Obi.Refine
