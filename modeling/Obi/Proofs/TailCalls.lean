import Obi.Proofs.Chain

/-!
# The chain fits the kernel's tail-call budget

The kernel drops a tail call past its limit without a word, and a dropped
`h2_resume_after` would leave the rest of a packet uninjected. Two cycles have
to be bounded: back to `detect_h2` for each frame of a packet, and back to
`find_existing_h2_tp` for each retried candidate of a frame. The counters that
bound them, `h2_frames` and `h2_tp_retries`, live in scratch memory and are
changed by different programs.

`rank` turns the counters into the number of tail calls still possible. A frame
costs seven of them: two rounds of find and validate, create, write, and the
resume. On top of that a socket on probation takes the detour through
`sniff_h2` once, because the sniffer stores a state that is not probation.
-/

namespace Obi.Refine
open Lib Ref

/-- The tail calls a chain can still make. -/
def rank : Prog × Chain → Nat
  | (.detectH2, s) => 7 * (4 - s.ctx.h2Frames) + if s.h2SockState = .probation then 2 else 0
  | (.sniffH2, s) =>
    if s.h2SockState = .probation then 7 * (4 - s.ctx.h2Frames) + 1 else 0
  | (.findExistingH2Tp, s) => 7 * (4 - s.ctx.h2Frames) - 1 - 2 * s.ctx.h2TpRetries
  | (.validateH2Tp, s) => 7 * (4 - s.ctx.h2Frames) - 2 - 2 * s.ctx.h2TpRetries
  | (.createH2Tp, s) => 7 * (4 - s.ctx.h2Frames) - 5
  | (.writeH2Traceparent, s) => 7 * (4 - s.ctx.h2Frames) - 6
  | (.findExistingTp, s) => 6 - s.ctx.niter
  | (.createTp, _) => 1
  | (.writeMsgTraceparent, _) | (.parseExistingTp, _) => 0

/-- Inside the inject chain there is a frame left to pay for, and the socket is
past its probation. -/
def Injecting (s : Chain) : Prop := s.ctx.h2Frames < 4 ∧ s.h2SockState ≠ .probation

/-- What the counters satisfy wherever a program of the chain starts. -/
def Counters : Prog × Chain → Prop
  | (.detectH2, s) | (.sniffH2, s) => s.ctx.h2Frames ≤ 4
  | (.findExistingH2Tp, s) | (.validateH2Tp, s) => Injecting s ∧ s.ctx.h2TpRetries ≤ 1
  | (.createH2Tp, s) | (.writeH2Traceparent, s) => Injecting s
  | (_, s) => s.ctx.h2Frames ≤ 4

variable {p q : Prog} {s s' : Chain} {env : HopEnv}

theorem Counters.frames_le (h : Counters (p, s)) : s.ctx.h2Frames ≤ 4 := by
  cases p with
  | findExistingH2Tp | validateH2Tp => exact le_of_lt h.1.1
  | createH2Tp | writeH2Traceparent => exact le_of_lt h.1
  | _ => exact h

/-- Resuming pays for the frame it leaves. -/
theorem counters_resume (hs : Injecting s) (hst : s'.h2SockState = s.h2SockState)
    (hfrs : s'.ctx.h2Frames = (s.ctx.h2Frames + 1) % 256) :
    Counters (.detectH2, s') ∧ rank (.detectH2, s') + 7 ≤ 7 * (4 - s.ctx.h2Frames) := by
  obtain ⟨hlt, hprob⟩ := hs
  refine ⟨?_, ?_⟩
  · show s'.ctx.h2Frames ≤ 4
    omega
  · rw [rank, hst, if_neg hprob]
    omega

theorem Injecting.of_sameSend (hs : Injecting s) (h : SameSend s s')
    (hfrs : s'.ctx.h2Frames = s.ctx.h2Frames) : Injecting s' :=
  ⟨by rw [hfrs]; exact hs.1, by rw [h.h2SockState]; exact hs.2⟩

/-! ## One tail call lowers the rank -/

theorem detectH2_rank (h : detectH2 env s = (.tailCall q, s')) :
    Counters (q, s') ∧ rank (q, s') < rank (.detectH2, s) := by
  obtain ⟨hfrs, -, ⟨rfl, rfl, hprob⟩ | ⟨hprob, p0, p, h0, hp, -, hscan⟩⟩ := detectH2_tail h
  · refine ⟨hfrs.le, ?_⟩
    rw [rank, rank, if_pos hprob, if_pos hprob]
    omega
  obtain ⟨-, -, hctx⟩ := detectPoint_frame h0 hp
  have hpoint : Injecting p.chain :=
    ⟨by rw [hctx]; exact hfrs, detectPoint_not_probation h0 hp hprob⟩
  have hrank : rank (.detectH2, s) = 7 * (4 - p.chain.ctx.h2Frames) := by
    rw [rank, if_neg hprob, hctx, add_zero]
  rcases hscan.tail q rfl with ⟨rfl, hf⟩ | ⟨rfl, hf, hover⟩
  · obtain ⟨hc, hlt⟩ := counters_resume hpoint hscan.sameSend.h2SockState hf
    exact ⟨hc, lt_of_lt_of_le (Nat.lt_add_of_pos_right (by decide)) (hrank ▸ hlt)⟩
  have hin := hpoint.of_sameSend hscan.sameSend hf
  have hretries : s'.ctx.h2TpRetries = 0 := hover.retries
  refine ⟨⟨hin, by omega⟩, ?_⟩
  rw [hrank, rank]
  have : s'.ctx.h2Frames = p.chain.ctx.h2Frames := hf
  have := hpoint.1
  omega

theorem sniffH2_rank (hs : s.ctx.h2Frames ≤ 4) (h : sniffH2 env s = (.tailCall q, s')) :
    Counters (q, s') ∧ rank (q, s') < rank (.sniffH2, s) := by
  obtain ⟨rfl, hprob, rfl⟩ := sniffH2_tail h
  obtain ⟨-, -, hctx⟩ := setSockState_frame s env .confirmed
  have hst : (s.setH2SockState env .confirmed).h2SockState = .confirmed :=
    setSockState_state (.inl (by rw [hprob]; decide))
  refine ⟨?_, ?_⟩
  · show (s.setH2SockState env .confirmed).ctx.h2Frames ≤ 4
    rw [hctx]
    exact hs
  · rw [rank, rank, if_pos hprob, hst, if_neg (by decide), hctx]
    omega

section
variable (hs : Injecting s)
include hs

theorem validateProg_rank (hretries : s.ctx.h2TpRetries ≤ 1)
    (h : validateH2TpProg env s = (.tailCall q, s')) :
    Counters (q, s') ∧ rank (q, s') < rank (.validateH2Tp, s) := by
  have hend := validateProg_end env s
  rw [h] at hend
  have hlt := hs.1
  rcases hend.tail q rfl with ⟨rfl, hf⟩ | ⟨rfl, hf, hzero, hone⟩ | ⟨rfl, hf⟩
  · have hf : s'.ctx.h2Frames = s.ctx.h2Frames := hf
    refine ⟨hs.of_sameSend hend.sameSend hf, ?_⟩
    simp only [rank]
    omega
  · have hf : s'.ctx.h2Frames = s.ctx.h2Frames := hf
    have hone : s'.ctx.h2TpRetries = 1 := hone
    refine ⟨⟨hs.of_sameSend hend.sameSend hf, by omega⟩, ?_⟩
    simp only [rank]
    omega
  · obtain ⟨hc, hr⟩ := counters_resume hs hend.sameSend.h2SockState hf
    refine ⟨hc, ?_⟩
    simp only [rank] at hr ⊢
    omega

theorem injectEnd_rank {next : Option Prog} (hend : InjectEnd next s (.tailCall q, s')) :
    (next = some q ∧ Injecting s' ∧ s'.ctx.h2Frames = s.ctx.h2Frames) ∨
      (Counters (q, s') ∧ rank (q, s') + 7 ≤ 7 * (4 - s.ctx.h2Frames)) := by
  rcases hend.tail q rfl with ⟨rfl, hf⟩ | ⟨rfl, hf⟩
  · exact .inl ⟨rfl, hs.of_sameSend hend.sameSend hf, hf⟩
  · exact .inr (counters_resume hs hend.sameSend.h2SockState hf)

theorem createH2Tp_rank (h : createH2Tp env s = (.tailCall q, s')) :
    Counters (q, s') ∧ rank (q, s') < rank (.createH2Tp, s) := by
  have hend := createH2Tp_end env s
  rw [h] at hend
  have hlt := hs.1
  rcases injectEnd_rank hs hend with ⟨hq, hin, hf⟩ | ⟨hcnt, hr⟩
  · cases hq
    refine ⟨hin, ?_⟩
    simp only [rank]
    omega
  refine ⟨hcnt, ?_⟩
  rw [rank]
  omega

theorem writeH2Tp_rank (h : writeH2Tp env s = (.tailCall q, s')) :
    Counters (q, s') ∧ rank (q, s') < rank (.writeH2Traceparent, s) := by
  have hend := writeH2Tp_end env s
  rw [h] at hend
  rcases injectEnd_rank hs hend with ⟨hq, -⟩ | ⟨hcnt, hr⟩
  · cases hq
  refine ⟨hcnt, ?_⟩
  rw [rank]
  omega

end

theorem findExistingTp_rank
    (hs : s.ctx.h2Frames ≤ 4) (h : findExistingTp env s = (.tailCall q, s')) :
    Counters (q, s') ∧ rank (q, s') < rank (.findExistingTp, s) := by
  unfold findExistingTp at h
  simp only [] at h
  split at h
  · cases h
  split at h
  · cases h
  next hniter =>
  simp only [kHttp1MaxScanIters] at hniter
  split at h
  · cases h
  split at h
  case h_3 => split at h <;> cases h <;> exact ⟨hs, by simp only [rank]; omega⟩
  all_goals
    cases h
    exact ⟨hs, by simp only [rank]; omega⟩

theorem createTp_rank (hs : s.ctx.h2Frames ≤ 4) (h : createTp env s = (.tailCall q, s')) :
    Counters (q, s') ∧ rank (q, s') < rank (.createTp, s) := by
  unfold createTp at h
  simp only [] at h
  split at h
  · cases h
  split at h
  · cases h
    exact ⟨hs, by simp only [rank]; omega⟩
  · cases h

theorem parseTp_no_tail : parseExistingTp env s ≠ (.tailCall q, s') := by
  intro h
  unfold parseExistingTp at h
  simp only [] at h
  split at h
  · cases h
  split at h
  · cases h
  · split at h <;> cases h

theorem chainStep_eq_some
    (h : chainStep env (p, s) = some (q, s')) : runProg env p s = (.tailCall q, s') := by
  unfold chainStep at h
  split at h
  · next hr => cases h; exact hr
  · cases h

theorem chainStep_rank (env : HopEnv) (c c' : Prog × Chain) (hc : Counters c)
    (h : chainStep env c = some c') : Counters c' ∧ rank c' < rank c := by
  obtain ⟨p, s⟩ := c
  obtain ⟨q, s'⟩ := c'
  have hrun := chainStep_eq_some h
  cases p with
  | detectH2 => exact detectH2_rank hrun
  | sniffH2 => exact sniffH2_rank hc hrun
  | findExistingH2Tp =>
    obtain ⟨rfl, c, rfl⟩ := findExisting_tail hrun
    refine ⟨hc, ?_⟩
    have := hc.1.1
    have := hc.2
    simp only [rank, Chain.setCandidate]
    omega
  | validateH2Tp => exact validateProg_rank hc.1 hc.2 hrun
  | createH2Tp => exact createH2Tp_rank hc hrun
  | writeH2Traceparent => exact writeH2Tp_rank hc hrun
  | findExistingTp => exact findExistingTp_rank hc hrun
  | createTp => exact createTp_rank hc hrun
  | writeMsgTraceparent =>
    simp only [runProg, writeMsgTp] at hrun
    split at hrun <;> cases hrun
  | parseExistingTp => exact absurd hrun parseTp_no_tail

/-! ## A send makes at most 31 tail calls -/

theorem http1_rank (hp : isHttp1 p = true) (hfrs : s.ctx.h2Frames ≤ 4) :
    Counters (p, s) ∧ rank (p, s) ≤ 30 := by
  cases p with
  | findExistingTp | createTp => exact ⟨hfrs, by rw [rank]; omega⟩
  | parseExistingTp | writeMsgTraceparent => exact ⟨hfrs, Nat.zero_le _⟩
  | _ => cases hp

/-- Where the entry program leaves a chain: three tail calls and then seven for
each of four frames, at most. -/
theorem extender_rank {cfg : Config} {send : Send} {sk : SkStorage}
    (h : obiPacketExtender cfg send sk = (.tailCall p, s)) :
    Counters (p, s) ∧ rank (p, s) ≤ 30 := by
  have hend := extender_end cfg send sk
  rw [h] at hend
  obtain ⟨hp, -, -, hfrs⟩ := hend.tail p rfl
  have hfrs : s.ctx.h2Frames = 0 := hfrs
  rcases hp with rfl | ⟨rfl, -⟩ | hhttp
  · refine ⟨show s.ctx.h2Frames ≤ 4 by omega, ?_⟩
    rw [rank]
    split <;> omega
  · refine ⟨show s.ctx.h2Frames ≤ 4 by omega, ?_⟩
    rw [rank]
    split <;> omega
  · exact http1_rank hhttp (by omega)

theorem length_hops_le (limit : Nat) (cfg : Config) (send : Send) (sk : SkStorage) :
    (hops limit cfg send sk).length ≤ 31 := by
  unfold hops
  split
  · next p s h =>
    obtain ⟨hc, hr⟩ := extender_rank h
    have := @length_visited_le _ _ chainStep send.hop Counters rank
      (fun i c c' hc h => chainStep_rank i c c' hc h) limit 0 (p, s) hc
    omega
  · exact Nat.zero_le _

theorem hops_counters (limit : Nat) (cfg : Config) (send : Send) (sk : SkStorage) :
    ∀ h ∈ hops limit cfg send sk, Counters h.2 := by
  unfold hops
  split
  · next p s h =>
    exact fun v hv => (visited_forall (fun _ c c' hc h => (chainStep_rank _ c c' hc h).1) limit 0
      (extender_rank h).1 v hv).1
  · intro h hh; cases hh

theorem findExisting_stops (env : HopEnv) (s : Chain) : StopsAt s (findExistingH2Tp env s) := by
  unfold findExistingH2Tp
  simp only []
  split
  · exact .inr rfl
  split
  · exact .inl ⟨_, rfl⟩
  · split <;> exact .inl ⟨_, rfl⟩

theorem runProg_stops (env : HopEnv) (p : Prog) (s : Chain) : StopsAt s (runProg env p s) := by
  cases p with
  | detectH2 => exact detectH2_stops env s
  | sniffH2 => exact sniffH2_stops env s
  | findExistingH2Tp => exact findExisting_stops env s
  | validateH2Tp => exact (validateProg_end env s).stops
  | createH2Tp => exact (createH2Tp_end env s).stops
  | writeH2Traceparent => exact (writeH2Tp_end env s).stops
  | findExistingTp => exact (findExistingTp_end env s).stops
  | createTp => exact (createTp_end env s).stops
  | parseExistingTp => exact (parseTp_end env s).stops
  | writeMsgTraceparent => exact (writeMsgTp_end env s).stops

/-- No program of a chain raises `h2_frames` above its cap. -/
theorem runProg_frames_le (hc : Counters (p, s)) : (runProg env p s).2.ctx.h2Frames ≤ 4 := by
  have hstops := runProg_stops env p s
  rcases hrun : runProg env p s with ⟨e, s'⟩
  rw [hrun] at hstops
  rcases hstops with ⟨q, hq⟩ | hfrs
  · have hstep : chainStep env (p, s) = some (q, s') := by
      simp [chainStep, hrun, show e = .tailCall q from hq]
    exact (chainStep_rank env _ _ hc hstep).1.frames_le
  · exact le_trans (le_of_eq hfrs) hc.frames_le

/-- Whatever the message, the socket's state and the helpers' answers, a send
tail-calls at most 33 times. Under the kernel's limit the last program it runs
returns by itself, so no tail call is ever dropped, and no program starts or
ends with `h2_frames` above its cap. -/
theorem tail_calls_within_budget (cfg : Config) (send : Send) (sk : SkStorage) :
    (∀ limit, (hops limit cfg send sk).length ≤ maxTailCallCnt) ∧
      (∀ h, (hops maxTailCallCnt cfg send sk).getLast? = some h → chainStep h.1 h.2 = none) ∧
      ∀ h ∈ hops maxTailCallCnt cfg send sk, h.2.2.ctx.h2Frames ≤ kH2MaxFramesPerPacket ∧
          (Hop.after h).ctx.h2Frames ≤ kH2MaxFramesPerPacket := by
  refine ⟨fun limit => ?_, fun h hlast => ?_, fun h hh => ?_⟩
  · exact le_trans (length_hops_le limit cfg send sk) (by decide)
  · unfold hops at hlast
    split at hlast
    · next p s hent =>
      obtain ⟨hc, hr⟩ := extender_rank hent
      obtain ⟨v, hv, hhalt⟩ := @exists_halt _ _ chainStep send.hop Counters rank (fun i c c' hc h =>
        chainStep_rank i c c' hc h) maxTailCallCnt 0 (p, s) hc (lt_of_le_of_lt hr (by decide))
      rw [hv] at hlast
      cases hlast
      exact hhalt
    · cases hlast
  · have hc := hops_counters _ _ _ _ h hh
    exact ⟨hc.frames_le, runProg_frames_le hc⟩

end Obi.Refine
