import Obi.Proofs.TailCalls

/-!
# How a hop classifies a socket

Two programs store in `sk_h2_conn_flag`: `sniff_h2` once, and `detect_h2` at its
SSL check, or at its preface check and then at its SETTINGS check. `flagPoints`
lists the values of the flag at those points, and the two `Moves` types say
what can happen between them and what was seen on the wire where it does. A
flag that is not there yet reads as `none`, so all of this assumes that the
entry can be created.
-/

namespace Obi.Refine
open Lib Ref

/-! ## The flag and what is read of it -/

/-- The changes the flag goes through. -/
inductive Moves : H2SockState → H2SockState → Prop
  | nonePreface : Moves .none .preface
  | noneProbation : Moves .none .probation
  | noneRejected : Moves .none .rejected
  | prefaceConfirmed : Moves .preface .confirmed
  | prefaceRejected : Moves .preface .rejected
  | probationConfirmed : Moves .probation .confirmed
  | probationRejected : Moves .probation .rejected
  | confirmedRejected : Moves .confirmed .rejected

/-- One reading of the flag after another. -/
def Follows (a b : H2SockState) : Prop := a = b ∨ Moves a b

variable {s' : Chain} {f : H2FrameInfo} {a b : H2SockState} {q : Prog}

theorem Follows.of_rejected (h : b = .rejected) : Follows a b := by
  rw [h]
  cases a with
  | none => exact .inr .noneRejected
  | preface => exact .inr .prefaceRejected
  | confirmed => exact .inr .confirmedRejected
  | probation => exact .inr .probationRejected
  | rejected => exact .inl rfl

/-- A settled flag is never unsettled again. -/
theorem Follows.settled (h : Follows a b)
    (ha : a = .confirmed ∨ a = .rejected) : b = .confirmed ∨ b = .rejected := by
  rcases h with rfl | h
  · exact ha
  · cases h with
    | confirmedRejected => exact .inr rfl
    | _ => simp at ha

/-- Whether `detect_h2` comes as far as its preface check. -/
def ReachesPreface (env : HopEnv) (s : Chain) : Prop :=
  env.tailcallCtxMem = true ∧ s.ctx.h2Frames < kH2MaxFramesPerPacket ∧ s.h2SockState ≠ .rejected ∧
    ¬ (s.ctx.h2ScanPos = 0 ∧ s.ctx.pConn.isSslConnection = true) ∧ s.h2SockState ≠ .probation

instance (env : HopEnv) (s : Chain) : Decidable (ReachesPreface env s) := by
  unfold ReachesPreface
  infer_instance

/-- The chain `detect_h2` has after its preface check. -/
def prefaceChain (env : HopEnv) (s : Chain) : Chain :=
  if ReachesPreface env s then
    match detectPreface env s with
    | .ok p => p.chain
    | .error t => t
  else s

/-- The values of the flag during a hop: where it starts, at each point where it
may have been stored, and where it ends. -/
def flagPoints : Hop → List H2SockState
  | (env, .detectH2, s) =>
    [s.h2SockState, (prefaceChain env s).h2SockState, (detectH2 env s).2.h2SockState]
  | h => [h.2.2.h2SockState, (Hop.after h).h2SockState]

/-- The frame `detect_h2` parses where it awaits SETTINGS, and where that is. -/
def awaitedFrame : Hop → Option (Nat × H2FrameInfo)
  | (env, .detectH2, s) =>
    if ReachesPreface env s then
      match detectPreface env s with
      | .error _ => none
      | .ok p =>
        if p.state = .preface ∧
            ¬ (p.chain.msg.size < kH2FrameHeaderLen ∨ p.pos ≥ p.chain.msg.size) then
          (parseH2FrameAt env.settings p.chain.msg p.pos p.chain.msg.size).map (p.pos, ·)
        else none
    else none
  | _ => none

/-! ## `detect_h2` -/

/-- What `detect_h2` does to the flag. -/
inductive DetectMoves (env : HopEnv) (s : Chain) (r : Exit × Chain) : Prop
  /-- Nothing, and no frame is parsed that could have decided it. -/
  | keeps (hpre : (prefaceChain env s).h2SockState = s.h2SockState)
      (hst : r.2.h2SockState = s.h2SockState)
      (hawait : awaitedFrame (env, .detectH2, s) = none)
  /-- The SSL mark is set. -/
  | ssl (hpre : (prefaceChain env s).h2SockState = s.h2SockState) (hexit : r.1 = .pass)
      (hst : r.2.h2SockState = .rejected)
      (hawait : awaitedFrame (env, .detectH2, s) = none)
  /-- A preface, and nothing after it yet. -/
  | preface (hnone : s.h2SockState = .none) (hopens : OpensPreface s.msg)
      (hpre : (prefaceChain env s).h2SockState = .preface) (hexit : r.1 = .pass)
      (hst : r.2.h2SockState = .preface)
      (hawait : awaitedFrame (env, .detectH2, s) = none)
  /-- A frame after a preface. -/
  | parsed (pos : Nat) (f : H2FrameInfo)
      (haft : (s.h2SockState = .preface ∧ pos = s.ctx.h2ScanPos) ∨
        (s.h2SockState = .none ∧ OpensPreface s.msg ∧ pos = kH2PrefaceLen))
      (hpre : (prefaceChain env s).h2SockState = .preface)
      (hawait : awaitedFrame (env, .detectH2, s) = some (pos, f))
      (hst : (f.ftype = kH2FrameSettings ∧ r.2.h2SockState = .confirmed) ∨
        (f.ftype ≠ kH2FrameSettings ∧ r.1 = .pass ∧ r.2.h2SockState = .rejected))

variable {env : HopEnv} {r : Exit × Chain} {s : Chain} {p : DetectPoint} {send : Send} {h : Hop}

theorem DetectMoves.follows (h : DetectMoves env s r) :
    Follows s.h2SockState (prefaceChain env s).h2SockState ∧
      Follows (prefaceChain env s).h2SockState r.2.h2SockState := by
  cases h with
  | keeps hpre hst => exact ⟨.inl hpre.symm, .inl (hpre.trans hst.symm)⟩
  | ssl hpre _ hst => exact ⟨.inl hpre.symm, .of_rejected hst⟩
  | preface hnone _ hpre _ hst =>
    rw [hnone, hpre, hst]
    exact ⟨.inr .nonePreface, .inl rfl⟩
  | parsed pos f haft hpre _ hst =>
    rw [hpre]
    refine ⟨?_, ?_⟩
    · rcases haft with ⟨hs, -⟩ | ⟨hs, -⟩
      · exact .inl hs
      · rw [hs]
        exact .inr .nonePreface
    · rcases hst with ⟨-, hst⟩ | ⟨-, -, hst⟩
      · rw [hst]
        exact .inr .prefaceConfirmed
      · exact .of_rejected hst

/-! The flag `detect_h2` leaves says what it found. -/

theorem DetectMoves.to_preface (h : DetectMoves env s r) (hto : r.2.h2SockState = .preface) :
    s.h2SockState = .preface ∨ s.h2SockState = .none ∧ OpensPreface s.msg := by
  cases h with
  | keeps _ hst => exact .inl (hst.symm.trans hto)
  | ssl _ _ hst => cases hst.symm.trans hto
  | preface hnone hopens => exact .inr ⟨hnone, hopens⟩
  | parsed _ _ _ _ _ hst =>
    rcases hst with ⟨-, hst⟩ | ⟨-, -, hst⟩
    · cases hst.symm.trans hto
    · cases hst.symm.trans hto

theorem DetectMoves.to_probation (h : DetectMoves env s r) (hto : r.2.h2SockState = .probation) :
    s.h2SockState = .probation := by
  cases h with
  | keeps _ hst => exact hst.symm.trans hto
  | ssl _ _ hst | preface _ _ _ _ hst => cases hst.symm.trans hto
  | parsed _ _ _ _ _ hst =>
    rcases hst with ⟨-, hst⟩ | ⟨-, -, hst⟩
    · cases hst.symm.trans hto
    · cases hst.symm.trans hto

theorem DetectMoves.to_confirmed (h : DetectMoves env s r) (hto : r.2.h2SockState = .confirmed) :
    s.h2SockState = .confirmed ∨ ∃ pos f, ((s.h2SockState = .preface ∧ pos = s.ctx.h2ScanPos) ∨
          (s.h2SockState = .none ∧ OpensPreface s.msg ∧ pos = kH2PrefaceLen)) ∧
        awaitedFrame (env, .detectH2, s) = some (pos, f) ∧ f.ftype = kH2FrameSettings := by
  cases h with
  | keeps _ hst => exact .inl (hst.symm.trans hto)
  | ssl _ _ hst | preface _ _ _ _ hst => cases hst.symm.trans hto
  | parsed pos f haft _ hawait hst =>
    rcases hst with ⟨htype, -⟩ | ⟨-, -, hst⟩
    · exact .inr ⟨pos, f, haft, hawait, htype⟩
    · cases hst.symm.trans hto

/-- What `detect_h2` does once it is past its preface check. -/
def detectScan (env : HopEnv) (p : DetectPoint) : Exit × Chain :=
  if p.chain.msg.size < kH2FrameHeaderLen ∨ p.pos ≥ p.chain.msg.size then (.pass, p.chain)
  else match detectSettings env p with
  | .error s => (.pass, s)
  | .ok p =>
    if p.state ≠ .confirmed then (.pass, p.chain)
    else if p.chain.skServer then (.pass, p.chain)
    else detectFrames env kH2MaxFrameScan 0 p.chain p.pos

theorem detectH2_of_reaches (h : ReachesPreface env s) : detectH2 env s =
      match detectPreface env s with
      | .error t => (.pass, t)
      | .ok p => detectScan env p := by
  obtain ⟨hmem, hfrs, hrej, hssl, hprob⟩ := h
  unfold detectH2
  rw [if_neg (not_not_intro hmem), if_neg (not_le_of_gt hfrs), if_neg hrej, if_neg hssl,
    if_neg hprob]
  rfl

/-- Where `detect_h2` does not come that far. -/
theorem detectH2_of_not_reaches (h : ¬ ReachesPreface env s) :
    (detectH2 env s).2 = s ∨ detectH2 env s = (.pass, s.setH2SockState env .rejected) := by
  unfold detectH2
  split
  · exact .inl rfl
  next hmem =>
  split
  · exact .inl rfl
  next hfrs =>
  split
  · exact .inl rfl
  next hrej =>
  split
  · exact .inr rfl
  next hssl =>
  split
  · exact .inl rfl
  next hprob =>
  exact absurd ⟨not_not.mp hmem, Nat.lt_of_not_le hfrs, hrej, hssl, hprob⟩ h

/-- Where a scan stands after the preface check. -/
structure AfterPreface (s : Chain) (p : DetectPoint) : Prop where
  state : p.chain.h2SockState = p.state
  msg : p.chain.msg = s.msg
  origin : (p.state = s.h2SockState ∧ p.pos = s.ctx.h2ScanPos) ∨
    (p.state = .preface ∧ s.h2SockState = .none ∧ OpensPreface s.msg ∧ p.pos = kH2PrefaceLen)

theorem detectPreface_point
    (hnew : ∀ state, env.create state = true) (h : detectPreface env s = .ok p) :
    AfterPreface s p := by
  rcases detectPreface_ok h with rfl | ⟨rfl, hnone, hopens⟩
  · exact ⟨rfl, rfl, .inl ⟨rfl, rfl⟩⟩
  · exact ⟨setSockState_state (.inr (hnew _)), (setSockState_frame s env .preface).2.1,
      .inr ⟨rfl, hnone, hopens, rfl⟩⟩

/-- A scan that decides nothing. -/
theorem detectMoves_undecided
    (hp : AfterPreface s p) (hpre : (prefaceChain env s).h2SockState = p.chain.h2SockState)
    (hawait : awaitedFrame (env, .detectH2, s) = none)
    (hst : r.2.h2SockState = p.chain.h2SockState)
    (hexit : p.state = .preface → r.1 = .pass) : DetectMoves env s r := by
  rw [hp.state] at hpre hst
  rcases hp.origin with ⟨hsame, -⟩ | ⟨hpreface, hnone, hopens, -⟩
  · exact .keeps (hpre.trans hsame) (hst.trans hsame) hawait
  · exact .preface hnone hopens (hpre.trans hpreface) (hexit hpreface)
      (hst.trans hpreface) hawait

theorem detectFrames_state (env : HopEnv) (s : Chain) (pos : Nat) :
    (detectFrames env kH2MaxFrameScan 0 s pos).2.h2SockState = s.h2SockState :=
  (detectFrames_end env kH2MaxFrameScan 0 s pos).sameSend.h2SockState

theorem detectSettings_rejects (hst : p.state = .preface)
    (hprs : parseH2FrameAt env.settings p.chain.msg p.pos p.chain.msg.size = some f)
    (htype : f.ftype ≠ kH2FrameSettings) :
    detectSettings env p = .error (p.chain.setH2SockState env .rejected) := by
  rw [detectSettings, if_pos hst, hprs]
  exact if_pos htype

theorem detectSettings_confirms (hst : p.state = .preface)
    (hprs : parseH2FrameAt env.settings p.chain.msg p.pos p.chain.msg.size = some f)
    (htype : f.ftype = kH2FrameSettings) :
    detectSettings env p = .error (p.chain.setH2SockState env .confirmed) ∨
      ∃ pos, detectSettings env p =
        .ok ⟨p.chain.setH2SockState env .confirmed, pos, .confirmed⟩ := by
  rw [detectSettings, if_pos hst, hprs]
  simp only []
  rw [if_neg (not_not_intro htype)]
  split
  · exact .inl rfl
  · exact .inr ⟨_, rfl⟩

theorem detectScan_moves (hnew : ∀ state, env.create state = true) (hreach : ReachesPreface env s)
    (hpoint : detectPreface env s = .ok p) : DetectMoves env s (detectScan env p) := by
  have hp := detectPreface_point hnew hpoint
  have hpre : (prefaceChain env s).h2SockState = p.chain.h2SockState := by
    rw [prefaceChain, if_pos hreach, hpoint]
  have hawait : awaitedFrame (env, .detectH2, s) = if p.state = .preface ∧
          ¬ (p.chain.msg.size < kH2FrameHeaderLen ∨ p.pos ≥ p.chain.msg.size) then
        (parseH2FrameAt env.settings p.chain.msg p.pos p.chain.msg.size).map (p.pos, ·)
      else none := by
    rw [awaitedFrame, if_pos hreach, hpoint]
  by_cases hend : p.chain.msg.size < kH2FrameHeaderLen ∨ p.pos ≥ p.chain.msg.size
  · rw [if_neg (fun h => h.2 hend)] at hawait
    rw [detectScan, if_pos hend]
    exact detectMoves_undecided hp hpre hawait rfl fun _ => rfl
  rw [detectScan, if_neg hend]
  by_cases hst : p.state = .preface
  · rw [if_pos ⟨hst, hend⟩] at hawait
    have hset : ∀ state, (p.chain.setH2SockState env state).h2SockState = state :=
      fun state => setSockState_state (.inr (hnew state))
    cases hprs : parseH2FrameAt env.settings p.chain.msg p.pos p.chain.msg.size with
    | none =>
      rw [hprs] at hawait
      rw [detectSettings, if_pos hst, hprs]
      exact detectMoves_undecided hp hpre hawait rfl fun _ => rfl
    | some f =>
      rw [hprs] at hawait
      have haft : (s.h2SockState = .preface ∧ p.pos = s.ctx.h2ScanPos) ∨
          (s.h2SockState = .none ∧ OpensPreface s.msg ∧ p.pos = kH2PrefaceLen) := by
        rcases hp.origin with ⟨hsame, hpos⟩ | ⟨-, hfnd⟩
        · exact .inl ⟨hsame.symm.trans hst, hpos⟩
        · exact .inr hfnd
      refine .parsed p.pos f haft (hpre.trans (hp.state.trans hst)) hawait ?_
      by_cases htype : f.ftype = kH2FrameSettings
      · refine .inl ⟨htype, ?_⟩
        rcases detectSettings_confirms hst hprs htype with hstop | ⟨pos, hgo⟩
        · rw [hstop]
          exact hset _
        rw [hgo]
        simp only []
        rw [if_neg (not_not_intro rfl)]
        split
        · exact hset _
        · rw [detectFrames_state]
          exact hset _
      · rw [detectSettings_rejects hst hprs htype]
        exact .inr ⟨htype, rfl, hset _⟩
  · rw [if_neg (fun h => hst h.1)] at hawait
    have hsame : p.state = s.h2SockState := hp.origin.elim (fun h => h.1) fun h => absurd h.1 hst
    rw [detectSettings, if_neg hst]
    refine .keeps (hpre.trans (hp.state.trans hsame)) ?_ hawait
    rw [← hsame, ← hp.state]
    simp only []
    split
    · rfl
    split
    · rfl
    · exact detectFrames_state env p.chain p.pos

theorem detectH2_moves (env : HopEnv) (s : Chain) (hnew : ∀ state, env.create state = true) :
    DetectMoves env s (detectH2 env s) := by
  by_cases hreach : ReachesPreface env s
  · rw [detectH2_of_reaches hreach]
    cases hpoint : detectPreface env s with
    | ok p => exact detectScan_moves hnew hreach hpoint
    | error t =>
      obtain ⟨hnone, hopens, rfl⟩ := detectPreface_error hpoint
      have hset : (s.setH2SockState env .preface).h2SockState = .preface :=
        setSockState_state (.inr (hnew _))
      refine .preface hnone hopens ?_ rfl hset ?_
      · rw [prefaceChain, if_pos hreach, hpoint]
        exact hset
      · rw [awaitedFrame, if_pos hreach, hpoint]
  · have hpre : (prefaceChain env s).h2SockState = s.h2SockState := by
      rw [prefaceChain, if_neg hreach]
    have hawait : awaitedFrame (env, .detectH2, s) = none := by rw [awaitedFrame, if_neg hreach]
    rcases detectH2_of_not_reaches hreach with hsame | hrej
    · exact .keeps hpre (by rw [hsame]) hawait
    · rw [hrej]
      exact .ssl hpre rfl (setSockState_state (.inr (hnew _))) hawait

/-! ## `sniff_h2` -/

/-- A send that looks like HTTP/2 from its start: frames by the strict rules,
and a first header block that opens with a pseudo-header. -/
def StrictWalk (env : HopEnv) (msg : SkMsg) : Prop :=
  ∃ hpackAt opener, sniffHttp2Frames env.sniff msg true = (.tiled, hpackAt) ∧ hpackAt ≠ 0 ∧
    h2HeadersOpener env.opener msg hpackAt msg.size = some opener ∧
    (h2HpackOpensResponse opener = true ∨ h2HpackOpensRequest opener = true)

/-- What `sniff_h2` does to the flag. -/
inductive SniffMoves (env : HopEnv) (s : Chain) (r : Exit × Chain) : Prop
  | keeps (hexit : r.1 = .pass) (hst : r.2.h2SockState = s.h2SockState)
  | probation (hnone : s.h2SockState = .none) (hwalk : StrictWalk env s.msg)
      (hexit : r.1 = .pass) (hst : r.2.h2SockState = .probation)
  | confirmed (hprob : s.h2SockState = .probation)
      (hwalk : (sniffHttp2Frames env.sniff s.msg false).1 = .tiled)
      (hst : r.2.h2SockState = .confirmed)
  | rejected (hprob : s.h2SockState = .probation) (hexit : r.1 = .pass)
      (hst : r.2.h2SockState = .rejected)

theorem SniffMoves.follows (h : SniffMoves env s r) : Follows s.h2SockState r.2.h2SockState := by
  cases h with
  | keeps _ hst => exact .inl hst.symm
  | probation hnone _ _ hst =>
    rw [hnone, hst]
    exact .inr .noneProbation
  | confirmed hprob _ hst =>
    rw [hprob, hst]
    exact .inr .probationConfirmed
  | rejected _ _ hst => exact .of_rejected hst

/-! So does the one `sniff_h2` leaves. -/

theorem SniffMoves.to_preface
    (h : SniffMoves env s r) (hto : r.2.h2SockState = .preface) : s.h2SockState = .preface := by
  cases h with
  | keeps _ hst => exact hst.symm.trans hto
  | probation _ _ _ hst | confirmed _ _ hst | rejected _ _ hst => cases hst.symm.trans hto

theorem SniffMoves.to_probation (h : SniffMoves env s r) (hto : r.2.h2SockState = .probation) :
    s.h2SockState = .probation ∨ StrictWalk env s.msg := by
  cases h with
  | keeps _ hst => exact .inl (hst.symm.trans hto)
  | probation _ hwalk => exact .inr hwalk
  | confirmed _ _ hst | rejected _ _ hst => cases hst.symm.trans hto

theorem SniffMoves.to_confirmed (h : SniffMoves env s r) (hto : r.2.h2SockState = .confirmed) :
    s.h2SockState = .confirmed ∨ s.h2SockState = .probation ∧
      (sniffHttp2Frames env.sniff s.msg false).1 = .tiled := by
  cases h with
  | keeps _ hst => exact .inl (hst.symm.trans hto)
  | probation _ _ _ hst => cases hst.symm.trans hto
  | confirmed hprob hwalk => exact .inr ⟨hprob, hwalk⟩
  | rejected _ _ hst => cases hst.symm.trans hto

theorem sniffedBlock_true {hpackAt : Nat} (h : (sniffedBlockIsH2 env s hpackAt).1 = true) :
    ∃ opener, h2HeadersOpener env.opener s.msg hpackAt s.msg.size = some opener ∧
      (h2HpackOpensResponse opener = true ∨ h2HpackOpensRequest opener = true) := by
  unfold sniffedBlockIsH2 at h
  split at h
  · cases h
  · next opener hopn =>
    split at h
    · next hresp => exact ⟨opener, hopn, .inl hresp⟩
    · exact ⟨opener, hopn, .inr h⟩

/-- On probation: the deciding send. -/
theorem sniffH2_decides (hs : s.h2SockState = .probation) : SniffMoves env s (sniffH2 env s) := by
  have hset : ∀ state, (s.setH2SockState env state).h2SockState = state := fun state =>
    setSockState_state (.inl (by rw [hs]; decide))
  unfold sniffH2
  simp only [hs, beq_self_eq_true, Bool.not_true]
  cases hwalk : (sniffHttp2Frames env.sniff s.msg false).1 with
  | unfinished => exact .keeps rfl rfl
  | mismatch => exact .rejected hs rfl (hset _)
  | tiled => exact .confirmed hs hwalk (hset _)

/-- Before it: the send that can put the socket on probation. -/
theorem sniffH2_suspects (hnew : ∀ state, env.create state = true)
    (hs : s.h2SockState = .none) : SniffMoves env s (sniffH2 env s) := by
  have hprob : (s.h2SockState == .probation) = false := by rw [hs]; rfl
  unfold sniffH2
  simp only [hprob, Bool.not_false, Bool.false_eq_true, if_false]
  split
  · next hwalk =>
    have hsame := (sniffedBlock_frame env s (sniffHttp2Frames env.sniff s.msg true).2).1
    split
    · next hblk =>
      obtain ⟨opener, hopn, hopens⟩ := sniffedBlock_true hblk
      refine .probation hs ⟨_, opener, ?_, hwalk.2, hopn, hopens⟩ rfl
        (setSockState_state (.inr (hnew _)))
      rw [← hwalk.1]
    · exact .keeps rfl hsame.h2SockState
  · exact .keeps rfl rfl

/-! ## Where a hop can start -/

/-- The state of a send at the programs of the inject chain. -/
structure InjectReady (send : Send) (s : Chain) : Prop where
  pConn : s.ctx.pConn = send.pConn
  ssl : send.pConn.isSslConnection = false
  state : s.h2SockState = .confirmed

theorem InjectReady.of_sameSend (h : InjectReady send s)
    (hsame : SameSend s s') : InjectReady send s' :=
  ⟨hsame.pConn.trans h.pConn, h.ssl, hsame.h2SockState.trans h.state⟩

/-- The message is still the one that was sent, and none of it was scanned. -/
structure Untouched (send : Send) (s : Chain) : Prop where
  pConn : s.ctx.pConn = send.pConn
  bytes : s.msg.bytes = send.msg.bytes
  scanPos : s.ctx.h2ScanPos = 0

/-- What is known of the flag and the message where a program of a send
starts. -/
def Classified (send : Send) : Prog × Chain → Prop
  | (.detectH2, s) => InjectReady send s ∨ Untouched send s
  | (.sniffH2, s) => Untouched send s ∧ (s.h2SockState = .none ∨ s.h2SockState = .probation)
  | (.findExistingH2Tp, s) | (.validateH2Tp, s) | (.createH2Tp, s)
  | (.writeH2Traceparent, s) => InjectReady send s
  | _ => True

theorem classified_http1 {p : Prog} (hp : isHttp1 p = true) : Classified send (p, s) := by
  cases p <;> trivial

theorem extender_classified {cfg : Config} {sk : SkStorage} {p : Prog}
    (h : obiPacketExtender cfg send sk = (.tailCall p, s)) :
    Classified send (p, s) ∧ s.sk = sk := by
  have hend := extender_end cfg send sk
  rw [h] at hend
  obtain ⟨hp, hconn, hpos, -⟩ := hend.tail p rfl
  refine ⟨?_, hend.sk⟩
  rcases hp with rfl | ⟨rfl, hnone⟩ | hhttp
  · exact .inr ⟨hconn, hend.bytes, hpos⟩
  · exact ⟨⟨hconn, hend.bytes, hpos⟩, .inl hnone⟩
  · exact classified_http1 hhttp

theorem detectH2_classified
    (hnew : ∀ state, env.create state = true) (hs : Classified send (.detectH2, s))
    (h : detectH2 env s = (.tailCall q, s')) : Classified send (q, s') := by
  have hconn : s.ctx.pConn = send.pConn := hs.elim (·.pConn) (·.pConn)
  obtain ⟨-, hssl, ⟨rfl, rfl, hprob⟩ | ⟨-, p0, p, hp₀, hp, hst, hend⟩⟩ := detectH2_tail h
  · rcases hs with hs | hs
    · exact absurd (hs.state.symm.trans hprob) (by decide)
    · exact ⟨hs, .inr hprob⟩
  -- past the checks: the mark is off and the stored flag is the one that was read
  have hoff : send.pConn.isSslConnection = false := by
    rcases hs with hs | hs
    · exact hs.ssl
    · rw [← hconn]
      exact Bool.eq_false_iff.mpr fun hmark => hssl ⟨hs.scanPos, hmark⟩
  have hflag : p.chain.h2SockState = .confirmed := by
    rcases detectSettings_ok hp with ⟨rfl, -⟩ | ⟨-, -, -, -, -, rfl⟩
    · exact (detectPreface_point hnew hp₀).state.trans hst
    · exact setSockState_state (.inr (hnew _))
  have hrdy : InjectReady send s' :=
    ⟨hend.sameSend.pConn.trans (by rw [(detectPoint_frame hp₀ hp).2.2, hconn]), hoff,
      hend.sameSend.h2SockState.trans hflag⟩
  rcases hend.tail q rfl with ⟨rfl, -⟩ | ⟨rfl, -⟩
  · exact .inl hrdy
  · exact hrdy

theorem chainStep_classified {c c' : Prog × Chain}
    (hnew : ∀ state, env.create state = true) (hc : Classified send c)
    (h : chainStep env c = some c') : Classified send c' := by
  obtain ⟨p, s⟩ := c
  obtain ⟨q, s'⟩ := c'
  have hrun := chainStep_eq_some h
  cases p with
  | detectH2 => exact detectH2_classified hnew hc hrun
  | sniffH2 =>
    obtain ⟨rfl, -, rfl⟩ := sniffH2_tail hrun
    obtain ⟨-, hmsg, hctx⟩ := setSockState_frame s env .confirmed
    obtain ⟨⟨hconn, hbs, hpos⟩, -⟩ := hc
    exact .inr ⟨by rw [hctx, hconn], by rw [hmsg, hbs], by rw [hctx, hpos]⟩
  | findExistingH2Tp =>
    obtain ⟨rfl, n, rfl⟩ := findExisting_tail hrun
    exact hc.of_sameSend ⟨rfl, rfl, rfl⟩
  | validateH2Tp =>
    have hend := validateProg_end env s
    rw [show validateH2TpProg env s = _ from hrun] at hend
    have hrdy := hc.of_sameSend hend.sameSend
    rcases hend.tail q rfl with ⟨rfl, -⟩ | ⟨rfl, -⟩ | ⟨rfl, -⟩
    · exact hrdy
    · exact hrdy
    · exact .inl hrdy
  | createH2Tp =>
    have hend := createH2Tp_end env s
    rw [show createH2Tp env s = _ from hrun] at hend
    have hrdy := hc.of_sameSend hend.sameSend
    rcases hend.tail q rfl with ⟨hq, -⟩ | ⟨rfl, -⟩
    · cases hq
      exact hrdy
    · exact .inl hrdy
  | writeH2Traceparent =>
    have hend := writeH2Tp_end env s
    rw [show writeH2Tp env s = _ from hrun] at hend
    rcases hend.tail q rfl with ⟨hq, -⟩ | ⟨rfl, -⟩
    · cases hq
    · exact .inl (hc.of_sameSend hend.sameSend)
  | findExistingTp =>
    exact classified_http1 ((findExistingTp_end env s).tail q (congrArg Prod.fst hrun))
  | createTp => exact classified_http1 ((createTp_end env s).tail q (congrArg Prod.fst hrun))
  | parseExistingTp =>
    exact classified_http1 ((parseTp_end env s).tail q (congrArg Prod.fst hrun))
  | writeMsgTraceparent =>
    exact classified_http1 ((writeMsgTp_end env s).tail q (congrArg Prod.fst hrun))

/-! ## What a hop does to the flag -/

/-- The other programs leave the flag alone. -/
theorem runProg_sameSend {p : Prog} (hdet : p ≠ .detectH2)
    (hsniff : p ≠ .sniffH2) : SameSend s (runProg env p s).2 := by
  cases p with
  | detectH2 => exact absurd rfl hdet
  | sniffH2 => exact absurd rfl hsniff
  | findExistingH2Tp => exact findExisting_sameSend env s
  | validateH2Tp => exact (validateProg_end env s).sameSend
  | createH2Tp => exact (createH2Tp_end env s).sameSend
  | writeH2Traceparent => exact (writeH2Tp_end env s).sameSend
  | findExistingTp => exact (findExistingTp_end env s).sameSend
  | createTp => exact (createTp_end env s).sameSend
  | parseExistingTp => exact (parseTp_end env s).sameSend
  | writeMsgTraceparent => exact (writeMsgTp_end env s).sameSend

/-- What a hop does to the flag, by its program. -/
inductive HopMoves (h : Hop) : Prop
  | detect (hp : h.2.1 = .detectH2) (hmoves : DetectMoves h.1 h.2.2 (runProg h.1 h.2.1 h.2.2))
  | sniff (hp : h.2.1 = .sniffH2) (hmoves : SniffMoves h.1 h.2.2 (runProg h.1 h.2.1 h.2.2))
  | other (hdet : h.2.1 ≠ .detectH2) (hsniff : h.2.1 ≠ .sniffH2)
      (hst : (Hop.after h).h2SockState = h.2.2.h2SockState)

theorem hop_moves (hnew : ∀ state, h.1.create state = true)
    (hc : Classified send h.2) : HopMoves h := by
  obtain ⟨env, p, s⟩ := h
  by_cases hdet : p = .detectH2
  · subst hdet
    exact .detect rfl (detectH2_moves env s hnew)
  by_cases hsniff : p = .sniffH2
  · subst hsniff
    rcases hc.2 with hnone | hprob
    · exact .sniff rfl (sniffH2_suspects hnew hnone)
    · exact .sniff rfl (sniffH2_decides hprob)
  · exact .other hdet hsniff (runProg_sameSend hdet hsniff).h2SockState

/-- Between the points of a hop the flag only moves forward. -/
theorem HopMoves.walk (hm : HopMoves h) :
    Walk Follows h.2.2.h2SockState (flagPoints h) (Hop.after h).h2SockState := by
  obtain ⟨env, p, s⟩ := h
  cases hm with
  | detect hp hmoves =>
    cases hp
    exact ⟨.inl rfl, hmoves.follows.1, hmoves.follows.2, rfl⟩
  | sniff hp hmoves =>
    cases hp
    exact ⟨.inl rfl, hmoves.follows, rfl⟩
  | other hdet _ hst =>
    have hpoints : flagPoints (env, p, s) =
        [s.h2SockState, (Hop.after (env, p, s)).h2SockState] := by
      cases p with
      | detectH2 => exact absurd rfl hdet
      | _ => rfl
    rw [hpoints]
    exact ⟨.inl rfl, .inl hst.symm, rfl⟩

/-- A hop that tail-calls leaves the flag alone or confirms the socket. -/
theorem HopMoves.continues (hm : HopMoves h) (hq : (runProg h.1 h.2.1 h.2.2).1 = .tailCall q) :
    (Hop.after h).h2SockState = h.2.2.h2SockState ∨ (Hop.after h).h2SockState = .confirmed := by
  have hpass : (runProg h.1 h.2.1 h.2.2).1 ≠ .pass := by
    rw [hq]
    exact nofun
  cases hm with
  | detect _ hmoves =>
    cases hmoves with
    | keeps _ hst => exact .inl hst
    | ssl _ hexit | preface _ _ _ hexit => exact absurd hexit hpass
    | parsed _ _ _ _ _ hst =>
      rcases hst with ⟨-, hst⟩ | ⟨-, hexit, -⟩
      · exact .inr hst
      · exact absurd hexit hpass
  | sniff _ hmoves =>
    cases hmoves with
    | keeps hexit | probation _ _ hexit => exact absurd hexit hpass
    | confirmed _ _ hst => exact .inr hst
    | rejected _ hexit => exact absurd hexit hpass
  | other _ _ hst => exact .inl hst

/-- A frame parsed after a preface settles the flag. -/
theorem HopMoves.settles (hm : HopMoves h) (hf : awaitedFrame h ≠ none) :
    (Hop.after h).h2SockState = .confirmed ∨ (Hop.after h).h2SockState = .rejected := by
  obtain ⟨env, p, s⟩ := h
  cases hm with
  | detect hp hmoves =>
    cases hp
    cases hmoves with
    | keeps _ _ hawait | ssl _ _ _ hawait | preface _ _ _ _ _ hawait => exact absurd hawait hf
    | parsed _ _ _ _ _ hst =>
      rcases hst with ⟨-, hst⟩ | ⟨-, -, hst⟩
      · exact .inl hst
      · exact .inr hst
  | sniff hp => cases hp; exact absurd rfl hf
  | other hdet =>
    cases p with
    | detectH2 => exact absurd rfl hdet
    | _ => exact absurd rfl hf

end Obi.Refine
