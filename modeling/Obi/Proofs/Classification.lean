import Obi.Proofs.SockState

/-!
# What a socket has to show before it is injected into

`SockState` says what one hop does to the flag of a socket. Here the hops are
put together to sends, and the sends of a socket to its history. The flag
carries knowledge from one send to the next, and `Backed` says which: a stored
preface stands for a send that opened with one and for no frame parsed since,
a socket on probation for a send that walked as HTTP/2 from its start, and a
confirmed socket for the SETTINGS frame after a preface or for two sends that
walked.
-/

namespace Obi.Refine
open Lib Ref List

/-! ## What was seen on the wire -/

variable (r : SendRecord)

/-- No frame was parsed where SETTINGS was awaited. -/
def NothingParsed : Prop := ∀ h ∈ r.hops, awaitedFrame h = none

/-- A send opened with the preface, and nothing was parsed since. -/
def AwaitsSettings (recs : List SendRecord) : Prop :=
  ∃ before r after, recs = before ++ r :: after ∧ OpensPreface r.send.msg ∧
    ∀ q ∈ r :: after, NothingParsed q

/-- The send carries a SETTINGS frame at `pos`, the first frame parsed after a
preface. -/
def ParsesSettings (pos : Nat) : Prop :=
  ∃ h ∈ r.hops, h.2.2.msg.bytes = r.send.msg.bytes ∧
    ∃ f, awaitedFrame h = some (pos, f) ∧ f.ftype = kH2FrameSettings

/-- SETTINGS right after the preface of the same send, or at the start of a
later one. -/
def SettingsFollowed (recs : List SendRecord) : Prop :=
  ∃ before r after, recs = before ++ r :: after ∧
    ((OpensPreface r.send.msg ∧ ParsesSettings r kH2PrefaceLen) ∨
      (AwaitsSettings before ∧ ParsesSettings r 0))

/-- The send was walked to its end by the strict rules, and its first header
block opens with a pseudo-header. -/
def WalkedStrictly : Prop :=
  ∃ h ∈ r.hops, h.2.1 = .sniffH2 ∧ h.2.2.msg.bytes = r.send.msg.bytes ∧ StrictWalk h.1 h.2.2.msg

/-- The send was walked to its end. -/
def WalkedTiled : Prop :=
  ∃ h ∈ r.hops, h.2.1 = .sniffH2 ∧ h.2.2.msg.bytes = r.send.msg.bytes ∧
    (sniffHttp2Frames h.1.sniff h.2.2.msg false).1 = .tiled

/-- Two sends were walked to their ends, the first of them strictly. -/
def TiledTwice (recs : List SendRecord) : Prop :=
  ∃ q r, [q, r].Sublist recs ∧ WalkedStrictly q ∧ WalkedTiled r

/-- What the flag stands for after the sends of `recs`. -/
def Backed (recs : List SendRecord) : H2SockState → Prop
  | .preface => AwaitsSettings recs
  | .probation => ∃ q ∈ recs, WalkedStrictly q
  | .confirmed => SettingsFollowed recs ∨ TiledTwice recs
  | .none | .rejected => True

variable {recs : List SendRecord}

theorem SettingsFollowed.append (h : SettingsFollowed recs) (more : List SendRecord) :
    SettingsFollowed (recs ++ more) := by
  obtain ⟨before, r, after, rfl, hr⟩ := h
  exact ⟨before, r, after ++ more, by simp, hr⟩

theorem TiledTwice.append (h : TiledTwice recs) (more : List SendRecord) :
    TiledTwice (recs ++ more) := by
  obtain ⟨q, r, hsub, hq, hr⟩ := h
  exact ⟨q, r, hsub.trans (sublist_append_left recs more), hq, hr⟩

theorem backed_confirmed_append (h : Backed recs .confirmed) (more : List SendRecord) :
    Backed (recs ++ more) .confirmed :=
  h.imp (·.append more) (·.append more)

theorem AwaitsSettings.snoc {r : SendRecord} (h : AwaitsSettings recs) (hr : NothingParsed r) :
    AwaitsSettings (recs ++ [r]) := by
  obtain ⟨before, q, after, rfl, hopens, hnone⟩ := h
  refine ⟨before, q, after ++ [r], by simp, hopens, fun p hp => ?_⟩
  rcases mem_append.mp (show p ∈ (q :: after) ++ [r] from hp) with hp | hp
  · exact hnone p hp
  · cases mem_singleton.mp hp
    exact hr

/-! ## One send -/

/-- The flag where a program starts, and where it ends. -/
def flagBefore (c : Prog × Chain) : H2SockState := c.2.h2SockState

def flagAfter (h : Hop) : H2SockState := (Hop.after h).h2SockState

theorem chainStep_after (env : HopEnv) (c c' : Prog × Chain) (h : chainStep env c = some c') :
    flagBefore c' = flagAfter (env, c) := by
  rw [flagAfter, Hop.after, chainStep_eq_some h]
  rfl

/-- The flag in a socket's storage. -/
def storedFlag (sk : SkStorage) : H2SockState := sk.connFlag.getD .none

/-- The entry of the flag can be created whenever it is missing. -/
def CanStore (send : Send) : Prop := ∀ k state, (send.hop k).create state = true

/-- A send runs nothing after the entry program, or a chain that starts with the
flag as it was stored. -/
theorem hops_eq (cfg : Config) (send : Send) (sk : SkStorage) :
    hops maxTailCallCnt cfg send sk = [] ∨ ∃ p s, hops maxTailCallCnt cfg send sk =
          visited chainStep send.hop maxTailCallCnt 0 (p, s) ∧
        Classified send (p, s) ∧ s.h2SockState = storedFlag sk := by
  unfold hops
  split
  · next p s hent =>
    obtain ⟨hclass, hsk⟩ := extender_classified hent
    exact .inr ⟨p, s, rfl, hclass, by rw [Chain.h2SockState, hsk]; rfl⟩
  · exact .inl rfl

/-- What a send leaves in the flag is what its last hop leaves there. -/
theorem storedFlag_after (cfg : Config) (send : Send) (sk : SkStorage) :
    storedFlag (storageAfter cfg send sk) =
      ((hops maxTailCallCnt cfg send sk).getLast?.map flagAfter).getD (storedFlag sk) := by
  unfold storageAfter
  cases (hops maxTailCallCnt cfg send sk).getLast? with
  | none => rw [(extender_end cfg send sk).sk]; rfl
  | some h => rfl

section
variable {cfg : Config} {send : Send} {sk : SkStorage} (hstore : CanStore send)
include hstore

theorem hops_moves : ∀ h ∈ hops maxTailCallCnt cfg send sk, Classified send h.2 ∧ HopMoves h := by
  intro h hh
  rcases hops_eq cfg send sk with hnil | ⟨p, s, heq, hclass, -⟩
  · rw [hnil] at hh
    cases hh
  rw [heq] at hh
  obtain ⟨hhere, j, hj⟩ := visited_forall
    (fun j _ _ hc hstep => chainStep_classified (hstore j) hc hstep) maxTailCallCnt 0 hclass h hh
  exact ⟨hhere, hop_moves (by rw [hj]; exact hstore j) hhere⟩

/-- Until a send confirms its socket, the flag is the one it started with. -/
theorem hops_state : ∀ h ∈ hops maxTailCallCnt cfg send sk,
    flagBefore h.2 = storedFlag sk ∨ flagBefore h.2 = .confirmed := by
  intro h hh
  rcases hops_eq cfg send sk with hnil | ⟨p, s, heq, hclass, hfst⟩
  · rw [hnil] at hh
    cases hh
  rw [heq] at hh
  refine (visited_forall (P := fun c => Classified send c ∧
    (flagBefore c = storedFlag sk ∨ flagBefore c = .confirmed)) ?_ maxTailCallCnt 0
    ⟨hclass, .inl hfst⟩ h hh).1.2
  rintro j c c' ⟨hc, hflag⟩ hstep
  refine ⟨chainStep_classified (hstore j) hc hstep, ?_⟩
  have hmoves := @hop_moves send (send.hop j, c) (hstore j) hc
  rw [chainStep_after _ _ _ hstep]
  rcases hmoves.continues (congrArg Prod.fst (chainStep_eq_some hstep)) with hkeep | hconf
  · rw [flagAfter, hkeep]
    exact hflag
  · exact .inr hconf

variable {h : Hop}

/-- A hop that confirms the socket has seen what a confirmed socket stands
for. -/
theorem hop_confirms (hback : Backed recs (storedFlag sk))
    (hh : h ∈ hops maxTailCallCnt cfg send sk) (hbef : h.2.2.h2SockState ≠ .confirmed)
    (haft : (Hop.after h).h2SockState = .confirmed) :
    Backed (recs ++ [⟨send, hops maxTailCallCnt cfg send sk⟩]) .confirmed := by
  obtain ⟨hclass, hmoves⟩ := hops_moves hstore h hh
  -- whatever the flag was, it is what the send started with
  have hstart : h.2.2.h2SockState = storedFlag sk := (hops_state hstore h hh).resolve_right hbef
  obtain ⟨env, p, s⟩ := h
  cases hmoves with
  | detect hp hmoves =>
    cases hp
    have hsent : Untouched send s := by
      rcases hclass with hrdy | hsent
      · exact absurd hrdy.state hbef
      · exact hsent
    obtain ⟨pos, f, hpos, hawait, htype⟩ := (hmoves.to_confirmed haft).resolve_left hbef
    refine .inl ⟨recs, _, [], rfl, ?_⟩
    rcases hpos with ⟨hpre, rfl⟩ | ⟨-, hopens, rfl⟩
    · rw [← hstart, hpre] at hback
      exact .inr ⟨hback, _, hh, hsent.bytes, f, by rw [← hsent.scanPos]; exact hawait, htype⟩
    refine .inl ⟨?_, _, hh, hsent.bytes, f, hawait, htype⟩
    rw [OpensPreface, ← hsent.bytes]
    exact hopens
  | sniff hp hmoves =>
    cases hp
    obtain ⟨hprob, hwalk⟩ := (hmoves.to_confirmed haft).resolve_left hbef
    rw [← hstart, hprob] at hback
    obtain ⟨q, hq, hstrict⟩ := hback
    refine .inr ⟨q, ⟨send, hops maxTailCallCnt cfg send sk⟩, ?_, hstrict, _, hh, rfl,
      hclass.1.bytes, hwalk⟩
    exact (singleton_sublist.mpr hq).append (List.Sublist.refl [_])
  | other _ _ hst => exact absurd (hst.symm.trans haft) hbef

/-- So has the socket of every hop that finds it confirmed. -/
theorem hop_confirmed (hback : Backed recs (storedFlag sk))
    (hh : h ∈ hops maxTailCallCnt cfg send sk) (hst : h.2.2.h2SockState = .confirmed) :
    Backed (recs ++ [⟨send, hops maxTailCallCnt cfg send sk⟩]) .confirmed := by
  rcases hops_eq cfg send sk with hnil | ⟨p, s, heq, -, hfst⟩
  · rw [hnil] at hh
    cases hh
  rw [heq] at hh
  rcases visited_origin chainStep_after maxTailCallCnt 0 h hh with hsame | ⟨u, hu, hne, hleft⟩
  · have hflag : storedFlag sk = .confirmed := (hsame.trans hfst).symm.trans hst
    rw [hflag] at hback
    exact backed_confirmed_append hback _
  · exact hop_confirms hstore hback (heq ▸ hu) (fun hu => hne (hu.trans hst.symm))
      (hleft.trans hst)

/-- The flag moves forward along a send. -/
theorem send_walk :
    Walk Follows (storedFlag sk) ((hops maxTailCallCnt cfg send sk).flatMap flagPoints)
      (storedFlag (storageAfter cfg send sk)) := by
  rw [storedFlag_after]
  have hmoves := @hops_moves cfg send sk hstore
  rcases hops_eq cfg send sk with hnil | ⟨p, s, heq, -, hfst⟩
  · rw [hnil]
    exact rfl
  rw [heq] at hmoves ⊢
  rw [← hfst]
  exact visited_walk chainStep_after maxTailCallCnt 0 fun v hv => (hmoves v hv).2.walk

/-- A frame parsed after a preface leaves the flag settled. -/
theorem send_settles (hh : h ∈ hops maxTailCallCnt cfg send sk) (hf : awaitedFrame h ≠ none) :
    storedFlag (storageAfter cfg send sk) = .confirmed ∨
      storedFlag (storageAfter cfg send sk) = .rejected := by
  rw [storedFlag_after]
  have hmoves := @hops_moves cfg send sk hstore
  have hsettled := (hmoves h hh).2.settles hf
  rcases hops_eq cfg send sk with hnil | ⟨p, s, heq, -, hfst⟩
  · rw [hnil] at hh
    cases hh
  rw [heq] at hmoves hh ⊢
  exact finalValue_settles chainStep_after
    (S := fun b : H2SockState => b = .confirmed ∨ b = .rejected)
    (fun _ _ hab => Follows.settled hab) maxTailCallCnt 0
    (fun v hv => (hmoves v hv).2.walk) hh hsettled

/-- A flag the send stored anew is backed by that send. -/
theorem hop_stores (hh : h ∈ hops maxTailCallCnt cfg send sk) (hne : flagBefore h.2 ≠ flagAfter h) :
    (flagAfter h = .preface → OpensPreface send.msg) ∧
      (flagAfter h = .probation → WalkedStrictly ⟨send, hops maxTailCallCnt cfg send sk⟩) := by
  obtain ⟨hclass, hmoves⟩ := hops_moves hstore h hh
  obtain ⟨env, p, s⟩ := h
  cases hmoves with
  | detect hp hmoves =>
    cases hp
    refine ⟨fun hto => ?_, fun hto => ?_⟩
    · obtain ⟨hnone, hopens⟩ := (hmoves.to_preface hto).resolve_left
        fun hs => hne (hs.trans hto.symm)
      rcases hclass with hrdy | hsent
      · cases hrdy.state.symm.trans hnone
      · rw [OpensPreface, ← hsent.bytes]
        exact hopens
    · exact absurd ((hmoves.to_probation hto).trans hto.symm) hne
  | sniff hp hmoves =>
    cases hp
    refine ⟨fun hto => ?_, fun hto => ?_⟩
    · exact absurd ((hmoves.to_preface hto).trans hto.symm) hne
    · have hwalk := (hmoves.to_probation hto).resolve_left fun hs => hne (hs.trans hto.symm)
      exact ⟨_, hh, rfl, hclass.1.bytes, hwalk⟩
  | other _ _ hst => exact absurd hst.symm hne

/-- The flag a send leaves is the one it found, or was stored by its last
hop. -/
theorem send_flag : storedFlag (storageAfter cfg send sk) = storedFlag sk ∨
    storedFlag (storageAfter cfg send sk) = .confirmed ∨
    ∃ h ∈ hops maxTailCallCnt cfg send sk, flagBefore h.2 ≠ flagAfter h ∧
      flagAfter h = storedFlag (storageAfter cfg send sk) := by
  rw [storedFlag_after]
  cases hlast : (hops maxTailCallCnt cfg send sk).getLast? with
  | none => exact .inl rfl
  | some h =>
    have hh := mem_of_getLast? hlast
    show flagAfter h = _ ∨ flagAfter h = _ ∨ ∃ u ∈ _, _ ∧ flagAfter u = flagAfter h
    by_cases hne : flagBefore h.2 = flagAfter h
    · rw [← hne]
      rcases hops_state hstore h hh with hsame | hconf
      · exact .inl hsame
      · exact .inr (.inl hconf)
    · exact .inr (.inr ⟨h, hh, hne, rfl⟩)

/-- A confirmed socket is backed whichever hop confirmed it. -/
theorem send_confirmed (hback : Backed recs (storedFlag sk))
    (hconf : storedFlag (storageAfter cfg send sk) = .confirmed) :
    Backed (recs ++ [⟨send, hops maxTailCallCnt cfg send sk⟩]) .confirmed := by
  have hflag := storedFlag_after cfg send sk
  rw [hconf] at hflag
  cases hlast : (hops maxTailCallCnt cfg send sk).getLast? with
  | none =>
    rw [hlast] at hflag
    rw [show storedFlag sk = .confirmed from hflag.symm] at hback
    exact backed_confirmed_append hback _
  | some h =>
    rw [hlast] at hflag
    have hh := mem_of_getLast? hlast
    by_cases hst : h.2.2.h2SockState = .confirmed
    · exact hop_confirmed hstore hback hh hst
    · exact hop_confirms hstore hback hh hst hflag.symm

/-- A send keeps the flag backed. -/
theorem send_backed (hback : Backed recs (storedFlag sk)) :
    Backed (recs ++ [⟨send, hops maxTailCallCnt cfg send sk⟩])
      (storedFlag (storageAfter cfg send sk)) := by
  have hflag := @send_flag cfg send sk hstore
  cases hfinal : storedFlag (storageAfter cfg send sk) with
  | none | rejected => trivial
  | confirmed => exact send_confirmed hstore hback hfinal
  | preface =>
    rw [hfinal] at hflag
    have hnothing : NothingParsed ⟨send, hops maxTailCallCnt cfg send sk⟩ := by
      intro h hh
      refine Decidable.byContradiction fun hf => ?_
      rcases send_settles hstore hh hf with hset | hset
      · exact absurd (hset.symm.trans hfinal) (by decide)
      · exact absurd (hset.symm.trans hfinal) (by decide)
    rcases hflag with hsame | hconf | ⟨h, hh, hne, hleft⟩
    · rw [← hsame] at hback
      exact AwaitsSettings.snoc hback hnothing
    · cases hconf
    · refine ⟨recs, _, [], rfl, (hop_stores hstore hh hne).1 hleft, fun q hq => ?_⟩
      cases mem_singleton.mp hq
      exact hnothing
  | probation =>
    rw [hfinal] at hflag
    rcases hflag with hsame | hconf | ⟨h, hh, hne, hleft⟩
    · rw [← hsame] at hback
      obtain ⟨q, hq, hwalk⟩ := hback
      exact ⟨q, mem_append_left _ hq, hwalk⟩
    · cases hconf
    · exact ⟨_, mem_append_right _ mem_cons_self, (hop_stores hstore hh hne).2 hleft⟩

end

/-! ## The sends of a socket -/

/-- Every value the flag of a socket takes, in order. -/
def flagHistory (recs : List SendRecord) : List H2SockState :=
  recs.flatMap fun r => r.hops.flatMap flagPoints

theorem sendRecords_walk (cfg : Config) {sends : List Send} {sk : SkStorage}
    (hstore : ∀ send ∈ sends, CanStore send) :
    ∃ b, Walk Follows (storedFlag sk) (flagHistory (sendRecords cfg sk sends)) b := by
  induction sends generalizing sk with
  | nil => exact ⟨_, rfl⟩
  | cons send rest ih =>
    obtain ⟨b, hrest⟩ := @ih (storageAfter cfg send sk) fun s hs => hstore s (mem_cons_of_mem _ hs)
    exact ⟨b, (send_walk (hstore send mem_cons_self)).append hrest⟩

/-- Where the inject chain is entered, along the sends that follow `done`. -/
theorem sendRecords_entered (cfg : Config) {sends : List Send} {sk : SkStorage}
    {done before after : List SendRecord} {r : SendRecord}
    (hstore : ∀ send ∈ sends, CanStore send) (hback : Backed done (storedFlag sk))
    (hr : sendRecords cfg sk sends = before ++ r :: after) {h : Hop} (hh : h ∈ r.hops)
    (hfind : h.2.1 = .findExistingH2Tp) :
    InjectReady r.send h.2.2 ∧ Backed (done ++ before ++ [r]) .confirmed := by
  induction sends generalizing sk done before with
  | nil => simp [sendRecords] at hr
  | cons send rest ih =>
    have hsend := hstore send mem_cons_self
    cases before with
    | nil =>
      obtain ⟨rfl, -⟩ := cons.inj hr
      have hrdy : InjectReady send h.2.2 := by
        have hclass := (hops_moves hsend h hh).1
        obtain ⟨env, p, s⟩ := h
        cases hfind
        exact hclass
      rw [append_nil]
      exact ⟨hrdy, hop_confirmed hsend hback hh hrdy.state⟩
    | cons first before =>
      obtain ⟨rfl, hrest⟩ := cons.inj hr
      have := ih (fun s hs => hstore s (mem_cons_of_mem _ hs)) (send_backed hsend hback) hrest
      rw [append_assoc done] at this
      exact this

theorem map_send_sendRecords (cfg : Config) (sk : SkStorage) (sends : List Send) :
    (sendRecords cfg sk sends).map SendRecord.send = sends := by
  induction sends generalizing sk with
  | nil => rfl
  | cons send rest ih => rw [sendRecords, map_cons, ih]

/-- The generic tracer knows the connection as HTTP/2 over TLS only while it is marked as one
over TLS. -/
def TrackedIsMarked (send : Send) : Prop :=
  send.pConn.alreadyTrackedSslHttp2 = true → send.pConn.isSslConnection = true

/-- The flag of a socket only moves towards confirmed or rejected, whatever is
sent and however the helpers answer. Where a send enters the inject chain the
socket is confirmed, both marks of TLS are off, and the sends so far showed
SETTINGS after a preface or framed as HTTP/2 twice. -/
theorem classification_only_advances (cfg : Config) (flags : Option H2SkFlags)
    (sends : List Send) (hstore : ∀ send ∈ sends, CanStore send)
    (hmarks : ∀ send ∈ sends, TrackedIsMarked send) :
    List.IsChain Follows (.none :: flagHistory (sendRecords cfg ⟨none, flags⟩ sends)) ∧
      ∀ before r after, sendRecords cfg ⟨none, flags⟩ sends = before ++ r :: after →
        ∀ h ∈ r.hops, h.2.1 = .findExistingH2Tp →
          h.2.2.h2SockState = .confirmed ∧ r.send.pConn.isSslConnection = false ∧
            r.send.pConn.alreadyTrackedSslHttp2 = false ∧
            (SettingsFollowed (before ++ [r]) ∨ TiledTwice (before ++ [r])) := by
  refine ⟨?_, fun before r after hr h hh hfind => ?_⟩
  · obtain ⟨b, hwalk⟩ := @sendRecords_walk cfg sends ⟨none, flags⟩ hstore
    exact hwalk.isChain
  · obtain ⟨hrdy, hback⟩ := @sendRecords_entered cfg sends ⟨none, flags⟩ [] before after r hstore
      trivial hr h hh hfind
    have hmark : TrackedIsMarked r.send := by
      refine hmarks _ ?_
      rw [← map_send_sendRecords cfg ⟨none, flags⟩ sends, hr, map_append, map_cons]
      exact mem_append_right _ mem_cons_self
    refine ⟨hrdy.state, hrdy.ssl, ?_, hback⟩
    rw [← Bool.not_eq_true]
    exact fun htracked => absurd (hmark htracked) (Bool.eq_false_iff.mp hrdy.ssl)

/-- A preface, SETTINGS and a request in one send, on a connection that carries no SSL mark;
the generic tracer may know it as HTTP/2 over TLS. -/
def prefaceSend (tracked : Bool) : Send :=
  { msg := ⟨[0x50, 0x52, 0x49, 0x20, 0x2a, 0x20, 0x48, 0x54, 0x54, 0x50, 0x2f, 0x32, 0x2e, 0x30,
      0x0d, 0x0a, 0x0d, 0x0a, 0x53, 0x4d, 0x0d, 0x0a, 0x0d, 0x0a] ++
      [0, 0, 0, kH2FrameSettings, 0, 0, 0, 0, 0] ++
      [0, 0, 3, kH2FrameHeaders, 0x05, 0, 0, 0, 1, 0x82, 0x86, 0x84], none, by decide, by simp⟩
    pConn := ⟨0, false, tracked, false⟩
    ctx := .zero
    tpInfo := .zero
    tailcallCtxMem := true
    tpInfoMem := true
    outgoing := none
    pullExisting := .full
    fillExisting := true
    isHttpExisting := false
    validPid := true
    pull := .full
    fill := true
    isHttp := false
    preface := .full
    hop := fun _ => .ok }

def prefaceHops (tracked : Bool) : List Hop :=
  hops maxTailCallCnt ⟨true, true, true⟩ (prefaceSend tracked) ⟨none, none⟩

theorem length_prefaceHops (tracked : Bool) : 1 < (prefaceHops tracked).length := by
  cases tracked <;> decide +kernel

/-- The hop after `detect_h2`. -/
def prefaceEntry (tracked : Bool) : Hop :=
  (prefaceHops tracked).get ⟨1, length_prefaceHops tracked⟩

theorem prefaceEntry_prog (tracked : Bool) : (prefaceEntry tracked).2.1 = .findExistingH2Tp := by
  cases tracked <;> decide +kernel

theorem canStore_prefaceSend (tracked : Bool) : ∀ send ∈ [prefaceSend tracked], CanStore send :=
  forall_mem_singleton.mpr fun _ _ => rfl

theorem classification_only_advances_preface :
    (prefaceEntry false).2.2.h2SockState = .confirmed ∧
      (prefaceSend false).pConn.isSslConnection = false ∧
      (prefaceSend false).pConn.alreadyTrackedSslHttp2 = false ∧
      (SettingsFollowed [⟨prefaceSend false, prefaceHops false⟩] ∨
        TiledTwice [⟨prefaceSend false, prefaceHops false⟩]) :=
  (classification_only_advances ⟨true, true, true⟩ none [prefaceSend false]
    (canStore_prefaceSend false)
    (forall_mem_singleton.mpr fun htracked => absurd htracked Bool.false_ne_true)).2
    [] ⟨prefaceSend false, prefaceHops false⟩ [] rfl (prefaceEntry false) (get_mem _ _)
    (prefaceEntry_prog false)

/-- The other mark is not looked at where the inject chain is entered. -/
theorem tracked_ssl_http2_entered :
    ¬ ∀ (cfg : Config) (flags : Option H2SkFlags) (sends : List Send),
      (∀ send ∈ sends, CanStore send) →
      ∀ before r after, sendRecords cfg ⟨none, flags⟩ sends = before ++ r :: after →
        ∀ h ∈ r.hops, h.2.1 = .findExistingH2Tp → r.send.pConn.isSslConnection = false ∧
            r.send.pConn.alreadyTrackedSslHttp2 = false := by
  intro h
  have hoff := h ⟨true, true, true⟩ none [prefaceSend true] (canStore_prefaceSend true)
    [] ⟨prefaceSend true, prefaceHops true⟩ [] rfl (prefaceEntry true) (get_mem _ _)
    (prefaceEntry_prog true)
  cases hoff.2

end Obi.Refine
