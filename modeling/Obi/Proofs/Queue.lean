import Obi.Lib.Run
import Obi.Spec.Wiring

/-!
# A group of queues delivers every message once

Along every run that leaves closed groups alone, the heap mirrors the wiring the
calls made: two queues point to the same sink exactly if they are connected, a
sink lists the queues that point to it and the channels of those queues, each
once. So a send, which goes through the channels of one sink, reaches the
channels of the group, and a close closes them.
-/

namespace Obi.Refine
open Lib Spec Ref.Msg Heap Function Wiring List
variable {T : Type} {f : Chan T → Except String (Chan T)}

/-! ## The channels of a sink -/

theorem eachChan_ok {g : Chan T → Chan T} {cs : List ChanId} {h : Heap T} (hnodup : cs.Nodup)
    (hf : ∀ c ∈ cs, f (h.chan c) = .ok (g (h.chan c))) :
    Heap.eachChan f h cs =
      .ok { h with chan := fun c => if c ∈ cs then g (h.chan c) else h.chan c } := by
  induction cs generalizing h with
  | nil => rfl
  | cons c rest ih =>
    obtain ⟨hfst, hrest⟩ := nodup_cons.mp hnodup
    have hkept : ∀ d ∈ rest, d ≠ c := fun d hd heq => hfst (heq ▸ hd)
    rw [eachChan, hf c mem_cons_self]
    show eachChan f { h with chan := update h.chan c (g (h.chan c)) } rest = _
    rw [ih hrest]
    · congr 2
      funext d
      by_cases hd : d = c
      · subst hd
        simp [hfst]
      · simp [hd]
    intro d hd
    simp only [update_of_ne (hkept d hd)]
    exact hf d (mem_cons_of_mem _ hd)

theorem eachChan_append (cs ds : List ChanId) (h : Heap T) :
    Heap.eachChan f h (cs ++ ds) = Heap.eachChan f h cs >>= fun h => Heap.eachChan f h ds := by
  induction cs generalizing h with
  | nil => rfl
  | cons c rest ih =>
    rw [cons_append, eachChan, eachChan]
    cases f (h.chan c) with
    | error e => rfl
    | ok ch => exact ih _

variable {k : SinkId} {dest : QueueId}

theorem sinkSend_ok {h : Heap T} (o : T) (late : ChanId → Bool)
    (hnodup : (h.channels k).Nodup) (hopen : ∀ c ∈ h.channels k, (h.chan c).closes = 0)
    (htimer : (h.sink k).timer = true) :
    sinkSend h k o late = .ok { h with
      chan := fun c =>
        if c ∈ h.channels k then { h.chan c with sent := (h.chan c).sent ++ [o] }
        else h.chan c } := by
  have hperm : ((h.channels k).filter (fun c => !late c) ++ (h.channels k).filter late).Perm
      (h.channels k) := by
    have := filter_append_perm (fun c => !late c) (h.channels k)
    simpa only [Bool.not_not] using this
  rw [sinkSend]
  by_cases hemp : (h.channels k).isEmpty = true
  · have hnil : h.channels k = [] := isEmpty_iff.mp hemp
    simp [hnil]
  rw [if_neg hemp, if_neg (by rw [htimer]; decide)]
  rw [← eachChan_append, eachChan_ok (g := fun ch => { ch with sent := ch.sent ++ [o] })]
  · simp [hperm.mem_iff]
  · exact hperm.nodup_iff.mpr hnodup
  · intro c hc
    have hzero : (h.chan c).closes = 0 := hopen c (hperm.mem_iff.mp hc)
    rw [Chan.put, if_neg (by omega)]

theorem sinkClose_ok {h : Heap T} (hk : (h.sink k).closed = false)
    (hnodup : (h.channels k).Nodup) (hopen : ∀ c ∈ h.channels k, (h.chan c).closes = 0) :
    sinkClose h k = .ok { h.setSink k { h.sink k with closed := true, dsts := [] } with
      chan := fun c =>
        if c ∈ h.channels k then { h.chan c with closes := (h.chan c).closes + 1 }
        else h.chan c } := by
  rw [sinkClose, if_neg (by rw [hk]; decide)]
  have heach : eachChan Chan.close h (h.channels k) = _ :=
    eachChan_ok (g := fun ch => { ch with closes := ch.closes + 1 }) hnodup fun c hc => by
      rw [Chan.close, if_neg (by rw [hopen c hc]; decide)]
  rw [heach]
  rfl

/-! ## Moving the members of a sink -/

theorem foldl_repoint (dst : SinkId) (dest : QueueId) (members : List QueueId) (h : Heap T) :
    ∃ queue : QueueId → Queue, members.foldl (repoint dst dest) h = { h with queue := queue } ∧
      ∀ x, (queue x).sink = (if x ∈ members then dst else (h.queue x).sink) ∧
        (queue x).remainingClosers = (h.queue x).remainingClosers := by
  induction members generalizing h with
  | nil => exact ⟨h.queue, rfl, fun x => ⟨rfl, rfl⟩⟩
  | cons m rest ih =>
    obtain ⟨queue, heq, hqueue⟩ := ih (repoint dst dest h m)
    refine ⟨queue, heq, fun x => ?_⟩
    rw [(hqueue x).1, (hqueue x).2]
    by_cases hx : x = m
    · subst hx
      simp [repoint, setQueue]
    · simp [repoint, setQueue, hx]

theorem mergeSinks_spec (h : Heap T) {src dst : SinkId} (hne : src ≠ dst) (dest : QueueId) :
    ∃ (queue : QueueId → Queue) (sink : SinkId → Sink),
      mergeSinks h src dst dest = { h with queue := queue, sink := sink } ∧
      (∀ x, (queue x).sink = (if x ∈ (h.sink src).members then dst else (h.queue x).sink) ∧
        (queue x).remainingClosers = (h.queue x).remainingClosers) ∧
      sink src = { h.sink src with dsts := [], members := [], timer := false } ∧
      sink dst = { h.sink dst with
        dsts := (h.sink dst).dsts ++ (h.sink src).dsts
        members := (h.sink dst).members ++ (h.sink src).members } ∧
      ∀ k, k ≠ src → k ≠ dst → sink k = h.sink k := by
  obtain ⟨queue, heq, hqueue⟩ := foldl_repoint dst dest (h.sink src).members h
  simp only [mergeSinks, heq, setSink]
  refine ⟨queue, _, rfl, hqueue, update_self .., ?_, fun k hsrc hdst => ?_⟩
  · rw [update_of_ne hne.symm, update_self]
  · rw [update_of_ne hsrc, update_of_ne hdst]

theorem addDst_sink (h : Heap T) (s : SinkId) (name : String) (k : SinkId) :
    ((addDst h s name).sink k).members = (h.sink k).members ∧
      ((addDst h s name).sink k).timer = (h.sink k).timer ∧
      ((addDst h s name).sink k).closed = (h.sink k).closed ∧
      (addDst h s name).channels k = h.channels k ++ if k = s then [h.chanCount] else [] := by
  by_cases hk : k = s
  · subst hk
    simp [addDst, Heap.channels]
  · simp [addDst, Heap.channels, hk]

/-! ## The heap mirrors the wiring -/

structure Wired (h : Heap T) (w : Wiring T) : Prop where
  queues : h.queueCount = w.queueCount
  chans : h.chanCount = w.chanCount
  edges : ∀ e ∈ w.bypasses, e.1 < h.queueCount ∧ e.2 < h.queueCount
  owners : ∀ c < h.chanCount, w.owner c < h.queueCount
  points : ∀ q < h.queueCount, (h.queue q).sink < h.sinkCount
  labels : Labels w.bypasses (· < h.queueCount) fun q => (h.queue q).sink
  members : ∀ k < h.sinkCount,
    Collects (· < h.queueCount) (fun q => (h.queue q).sink) (h.sink k).members k
  channels : ∀ k < h.sinkCount, (h.sink k).closed = false →
    Collects (· < h.chanCount) (fun c => (h.queue (w.owner c)).sink) (h.channels k) k
  timers : ∀ q < h.queueCount, (h.sinkOf q).timer = true
  closed : ∀ q < h.queueCount, (h.sinkOf q).closed = true ↔ q ∈ w.closed
  existing : ∀ q ∈ w.closed, q < h.queueCount
  remaining : ∀ q < h.queueCount, (h.queue q).remainingClosers = w.remaining q
  sent : ∀ c < h.chanCount, (h.chan c).sent = w.sent c
  closes : ∀ c < h.chanCount, (h.chan c).closes = w.closes c
  once : ∀ c < h.chanCount, w.closes c = if (h.sinkOf (w.owner c)).closed then 1 else 0

theorem wired_empty : Wired (Heap.empty : Heap T) Wiring.empty := by
  constructor <;> simp [Heap.empty, Wiring.empty, Labels]

/-- The calls that panic on a group that is not closed. -/
def Refuses (h : Heap T) : Call T → Prop
  | .bypass q dest => q = dest ∨ (h.queue q).bypassed = true
  | .subscribe q _ => (h.sinkOf q).cfg.channelBufferLen < 0
  | _ => False

variable {h : Heap T} {w : Wiring T} {q : QueueId}

section
variable (hm : Wired h w)
include hm

theorem Wired.mem_members (hk : k < h.sinkCount) (x : QueueId) :
    x ∈ (h.sink k).members ↔ x < h.queueCount ∧ (h.queue x).sink = k :=
  (hm.members k hk).2 x

theorem Wired.lt_of_open (hq : w.Open q) : q < h.queueCount := by
  rw [hm.queues]
  exact hq.1

theorem Wired.sink_open (hq : w.Open q) : (h.sinkOf q).closed = false := by
  rw [Bool.eq_false_iff, Ne, hm.closed q (hm.lt_of_open hq)]
  exact hq.2

theorem Wired.assert_ok (hq : w.Open q) : assertNotClosed h q = .ok () := by
  rw [assertNotClosed, if_neg (by rw [hm.sink_open hq]; decide)]

theorem Wired.edge (hq : q < h.queueCount) (hdest : dest < h.queueCount) :
    ∀ e ∈ w.bypasses ++ [(q, dest)], e.1 < h.queueCount ∧ e.2 < h.queueCount :=
  forall_mem_append.mpr ⟨hm.edges, forall_mem_singleton.mpr ⟨hq, hdest⟩⟩

/-- The channels of the sink of `q` are those of its group, each once and open. -/
theorem Wired.group (hq : w.Open q) : (h.channels (h.queue q).sink).Nodup ∧
      (∀ c, c ∈ h.channels (h.queue q).sink ↔ w.Reaches q c) ∧
      ∀ c ∈ h.channels (h.queue q).sink, (h.chan c).closes = 0 := by
  have hlt : q < h.queueCount := hm.lt_of_open hq
  obtain ⟨hnodup, hmem⟩ := hm.channels _ (hm.points q hlt) (hm.sink_open hq)
  refine ⟨hnodup, fun c => ?_, fun c hc => ?_⟩
  · rw [hmem, Wiring.Reaches, ← hm.chans]
    refine and_congr_right fun hc => ?_
    rw [← hm.labels q (w.owner c) hlt (hm.owners c hc)]
    exact eq_comm
  · obtain ⟨hc, hsink⟩ : c < h.chanCount ∧ (h.queue (w.owner c)).sink = _ := (hmem c).mp hc
    have hopen : (h.sinkOf (w.owner c)).closed = false := by
      rw [sinkOf, hsink]
      exact hm.sink_open hq
    rw [hm.closes c hc, hm.once c hc, hopen]
    rfl

/-! ## One call -/

theorem wired_newQueue (cfg : QueueConfig) : Wired (newQueue h cfg) (w.step (.newQueue cfg)) := by
  have hcases : ∀ x, x < h.queueCount + 1 → x < h.queueCount ∨ x = h.queueCount := by omega
  have hqueue : ∀ x < h.queueCount, (newQueue h cfg).queue x = h.queue x := fun x hx =>
    update_of_ne (ne_of_lt hx) ..
  have hsink : ∀ k < h.sinkCount, (newQueue h cfg).sink k = h.sink k := fun k hk =>
    update_of_ne (ne_of_lt hk) ..
  have hnew : (newQueue h cfg).queue h.queueCount =
      ⟨cfg, h.sinkCount, [cfg.name], false, cfg.closingAttempts⟩ := update_self ..
  have hnewSink : (newQueue h cfg).sink h.sinkCount = ⟨cfg, [], [h.queueCount], false, true⟩ :=
    update_self ..
  have hsinkOf : ∀ x < h.queueCount, (newQueue h cfg).sinkOf x = h.sinkOf x := by
    intro x hx
    rw [sinkOf, hqueue x hx, hsink _ (hm.points x hx), sinkOf]
  have hnewSinkOf : (newQueue h cfg).sinkOf h.queueCount =
      ⟨cfg, [], [h.queueCount], false, true⟩ := by
    rw [sinkOf, hnew, hnewSink]
  have hpoint : ∀ x < h.queueCount, (h.queue x).sink ≠ h.sinkCount := fun x hx =>
    ne_of_lt (hm.points x hx)
  refine
    { queues := congrArg (· + 1) hm.queues
      chans := hm.chans
      edges := fun e he =>
        ⟨Nat.lt_succ_of_lt (hm.edges e he).1, Nat.lt_succ_of_lt (hm.edges e he).2⟩
      owners := fun c hc => Nat.lt_succ_of_lt (hm.owners c hc)
      existing := fun x hx => Nat.lt_succ_of_lt (hm.existing x hx)
      sent := hm.sent
      closes := hm.closes
      points := ?points
      labels := ?labels
      members := ?members
      channels := ?channels
      timers := ?timers
      closed := ?closed
      remaining := ?remaining
      once := ?once }
  case points =>
    intro x hx
    rcases hcases x hx with hx | rfl
    · rw [hqueue x hx]
      exact Nat.lt_succ_of_lt (hm.points x hx)
    · rw [hnew]
      exact Nat.lt_succ_self _
  case labels =>
    have hfresh := hm.labels.fresh hm.edges (lt_irrefl h.queueCount) hpoint
    have hlabel : ∀ z, z < h.queueCount + 1 → ((newQueue h cfg).queue z).sink =
        update (fun q => (h.queue q).sink) h.queueCount h.sinkCount z := by
      intro z hz
      rcases hcases z hz with hz | rfl
      · rw [hqueue z hz, update_of_ne (ne_of_lt hz)]
      · rw [hnew, update_self]
    intro x y hx hy
    show ((newQueue h cfg).queue x).sink = ((newQueue h cfg).queue y).sink ↔ _
    rw [hlabel x hx, hlabel y hy]
    exact hfresh x y (hcases x hx) (hcases y hy)
  case members =>
    intro k hk
    have hmember : Collects (· < h.queueCount) (fun q => (h.queue q).sink)
        (if k < h.sinkCount then (h.sink k).members else []) k := by
      split
      · next hold => exact hm.members k hold
      · next hold => exact collects_nil fun x hx heq => hold (heq ▸ hm.points x hx)
    have hcat := hmember.concat (g := fun x => ((newQueue h cfg).queue x).sink) (lt_irrefl _)
      (fun x => Nat.lt_succ_iff_lt_or_eq) fun x hx => by rw [hqueue x hx]
    simp only [hnew] at hcat
    rcases Nat.lt_succ_iff_lt_or_eq.mp hk with hk | rfl
    · rw [if_pos hk, if_neg (ne_of_lt hk), append_nil] at hcat
      rw [hsink k hk]
      exact hcat
    rw [if_neg (lt_irrefl _), if_pos rfl] at hcat
    rw [hnewSink]
    exact hcat
  case channels =>
    intro k hk hopen
    have howner : ∀ c < h.chanCount, ((newQueue h cfg).queue (w.owner c)).sink =
        (h.queue (w.owner c)).sink := fun c hc => by rw [hqueue _ (hm.owners c hc)]
    rcases Nat.lt_succ_iff_lt_or_eq.mp hk with hk | rfl
    · rw [hsink k hk] at hopen
      rw [Heap.channels, hsink k hk]
      refine ⟨(hm.channels k hk hopen).1, fun c => ((hm.channels k hk hopen).2 c).trans ?_⟩
      exact and_congr_right fun hc => iff_of_eq (congrArg (· = k) (howner c hc).symm)
    · rw [Heap.channels, hnewSink]
      exact collects_nil fun c hc heq => hpoint _ (hm.owners c hc) ((howner c hc).symm.trans heq)
  case timers =>
    intro x hx
    rcases hcases x hx with hx | rfl
    · rw [hsinkOf x hx]
      exact hm.timers x hx
    · rw [hnewSinkOf]
  case closed =>
    intro x hx
    rcases hcases x hx with hx | rfl
    · rw [hsinkOf x hx]
      exact hm.closed x hx
    · rw [hnewSinkOf]
      exact iff_of_false Bool.false_ne_true fun hmem => lt_irrefl _ (hm.existing _ hmem)
  case remaining =>
    intro x hx
    rcases hcases x hx with hx | rfl
    · have hne : x ≠ w.queueCount := by rw [← hm.queues]; exact ne_of_lt hx
      rw [hqueue x hx, hm.remaining x hx]
      exact (update_of_ne hne ..).symm
    · rw [hnew, hm.queues]
      simp [step]
  case once =>
    intro c hc
    show w.closes c = if ((newQueue h cfg).sinkOf (w.owner c)).closed then 1 else 0
    rw [hsinkOf _ (hm.owners c hc)]
    exact hm.once c hc

theorem wired_send (hq : w.Open q) (o : T) (late : ChanId → Bool) :
    ∃ h', send h q o late = .ok h' ∧ Wired h' (w.step (.send q o late)) := by
  obtain ⟨hnodup, hmem, hopen⟩ := hm.group hq
  have hsink := sinkSend_ok o late hnodup hopen (hm.timers q (hm.lt_of_open hq))
  have hsend : send h q o late = sinkSend h (h.queue q).sink o late := by
    rw [send, hm.assert_ok hq]
    rfl
  rw [hsend, hsink]
  refine ⟨_, rfl, { hm with sent := ?sent, closes := ?closes }⟩
  case sent =>
    intro c hc
    simp only [step, ← hmem c, ← hm.sent c hc]
    split <;> rfl
  case closes =>
    intro c hc
    simp only [step, ← hm.closes c hc]
    split <;> rfl

theorem wired_addDst (hq : w.Open q) (name subscriber : String) :
    Wired (addDst h (h.queue q).sink name) (w.step (.subscribe q subscriber)) := by
  have hlt : q < h.queueCount := hm.lt_of_open hq
  have hcases : ∀ c, c < h.chanCount + 1 → c < h.chanCount ∨ c = h.chanCount := by omega
  have hsink := addDst_sink h (h.queue q).sink name
  have howner : ∀ c < h.chanCount, (w.step (.subscribe q subscriber)).owner c = w.owner c := by
    intro c hc
    exact update_of_ne (by rw [← hm.chans]; exact ne_of_lt hc) ..
  have hnew : (w.step (.subscribe q subscriber)).owner h.chanCount = q := by
    rw [hm.chans]
    simp [step]
  have hchan : ∀ c < h.chanCount + 1,
      ((addDst h (h.queue q).sink name).chan c).sent = (w.step (.subscribe q subscriber)).sent c ∧
        ((addDst h (h.queue q).sink name).chan c).closes =
          (w.step (.subscribe q subscriber)).closes c := by
    intro c hc
    simp only [addDst, step, ← hm.chans]
    rcases hcases c hc with hc | rfl
    · simp only [update_of_ne (ne_of_lt hc)]
      exact ⟨hm.sent c hc, hm.closes c hc⟩
    · simp
  refine
    { hm with
      chans := congrArg (· + 1) hm.chans
      owners := ?owners
      members := fun k hk => (hsink k).1 ▸ hm.members k hk
      channels := ?channels
      timers := fun x hx => (hsink (h.queue x).sink).2.1.trans (hm.timers x hx)
      closed := fun x hx => (hsink (h.queue x).sink).2.2.1 ▸ hm.closed x hx
      sent := fun c hc => (hchan c hc).1
      closes := fun c hc => (hchan c hc).2
      once := ?once }
  case owners =>
    intro c hc
    rcases hcases c hc with hc | rfl
    · rw [howner c hc]
      exact hm.owners c hc
    · rw [hnew]
      exact hlt
  case channels =>
    intro k hk hopen
    obtain ⟨-, -, hcl, hdsts⟩ := hsink k
    rw [hdsts]
    rw [hcl] at hopen
    have hcat := (hm.channels k hk hopen).concat
      (g := fun c => (h.queue ((w.step (.subscribe q subscriber)).owner c)).sink)
      (lt_irrefl _) (fun x => Nat.lt_succ_iff_lt_or_eq) fun c hc => by rw [howner c hc]
    simp only [hnew] at hcat
    exact hcat
  case once =>
    intro c hc
    show _ = if ((addDst h (h.queue q).sink name).sink (h.queue _).sink).closed then 1 else 0
    rw [(hsink _).2.2.1]
    rcases hcases c hc with hc | rfl
    · have hne : c ≠ w.chanCount := by rw [← hm.chans]; exact ne_of_lt hc
      simp only [step, update_of_ne hne]
      exact hm.once c hc
    have hopen : (h.sink (h.queue q).sink).closed = false := hm.sink_open hq
    rw [hnew, hopen, hm.chans]
    simp only [step, update_self]
    rfl

/-- What a queue points to and what it waits for is all the wiring sees of it. -/
theorem wired_setQueue (hq : q < h.queueCount) {v : Queue} (hsink : v.sink = (h.queue q).sink) :
    Wired (h.setQueue q v)
      { w with remaining := Function.update w.remaining q v.remainingClosers } := by
  have hpoint : ∀ x, ((h.setQueue q v).queue x).sink = (h.queue x).sink := by
    intro x
    by_cases hx : x = q
    · subst hx
      simp [setQueue, hsink]
    · simp [setQueue, update_of_ne hx]
  have hsinkOf : ∀ x, (h.setQueue q v).sinkOf x = h.sinkOf x := fun x => congrArg h.sink (hpoint x)
  refine
    { hm with
      points := fun x hx => by rw [hpoint]; exact hm.points x hx
      labels := hm.labels.congr fun x _ => hpoint x
      members := fun k hk => by simp only [hpoint]; exact hm.members k hk
      channels := fun k hk hopen => by simp only [hpoint]; exact hm.channels k hk hopen
      timers := fun x hx => by rw [hsinkOf]; exact hm.timers x hx
      closed := fun x hx => by rw [hsinkOf]; exact hm.closed x hx
      remaining := fun x hx => ?remaining
      once := fun c hc => by rw [hsinkOf]; exact hm.once c hc }
  case remaining =>
    by_cases hxq : x = q
    · subst hxq
      simp [setQueue]
    · simp only [setQueue, update_of_ne hxq]
      exact hm.remaining x hx

theorem wired_closeGroup (hq : w.Open q) :
    ∃ h', sinkClose h (h.queue q).sink = .ok h' ∧ Wired h' (w.closeGroup q) := by
  have hlt : q < h.queueCount := hm.lt_of_open hq
  obtain ⟨hnodup, hmem, hopen⟩ := hm.group hq
  rw [sinkClose_ok (hm.sink_open hq) hnodup hopen]
  have hgroup : ∀ x < h.queueCount,
      (Connected w.bypasses q x ↔ (h.queue x).sink = (h.queue q).sink) := by
    intro x hx
    rw [← hm.labels q x hlt hx]
    exact eq_comm
  have hsink : ∀ k, ((h.setSink (h.queue q).sink
      { h.sink (h.queue q).sink with closed := true, dsts := [] }).sink k) =
        if k = (h.queue q).sink then { h.sink k with closed := true, dsts := [] }
        else h.sink k := by
    intro k
    simp only [setSink, update_apply]
    split
    · next hk => rw [hk]
    · rfl
  refine ⟨_, rfl, { hm with
    members := fun k hk => ?members
    channels := ?channels
    timers := fun x hx => ?timers
    closed := ?closed
    existing := ?existing
    sent := ?sent
    closes := ?closes
    once := ?once }⟩
  case members =>
    rw [hsink k, apply_ite Sink.members, ite_self]
    exact hm.members k hk
  case channels =>
    intro k hk
    by_cases hkq : k = (h.queue q).sink
    · subst hkq
      simp [setSink]
    · simp only [setSink, Heap.channels, update_of_ne hkq]
      exact hm.channels k hk
  case timers =>
    rw [sinkOf, hsink, apply_ite Sink.timer, ite_self]
    exact hm.timers x hx
  case closed =>
    intro x hx
    show _ ↔ x ∈ w.closed ∨ Connected w.bypasses q x
    rw [hgroup x hx]
    by_cases hxq : (h.queue x).sink = (h.queue q).sink
    · simp [setSink, sinkOf, hxq]
    · simp only [setSink, sinkOf, update_of_ne hxq, hxq, or_false]
      exact hm.closed x hx
  case existing =>
    intro x hx
    rcases hx with hx | hx
    · exact hm.existing x hx
    · exact (Connected.mem (S := (· < h.queueCount)) hm.edges hx).mp hlt
  case sent =>
    intro c hc
    simp only [closeGroup, ← hm.sent c hc]
    split <;> rfl
  case closes =>
    intro c hc
    simp only [closeGroup, ← hmem c, ← hm.closes c hc]
    split <;> rfl
  case once =>
    intro c (hc : c < h.chanCount)
    simp only [closeGroup, Wiring.Reaches, ← hm.chans, hc, true_and, hgroup _ (hm.owners c hc)]
    by_cases hcq : (h.queue (w.owner c)).sink = (h.queue q).sink
    · have hzero : w.closes c = 0 := by
        rw [← hm.closes c hc]
        exact hopen c ((hmem c).mpr ⟨hm.chans ▸ hc, (hgroup _ (hm.owners c hc)).mpr hcq⟩)
      simp [setSink, sinkOf, hcq, hzero]
    · simp only [setSink, sinkOf, update_of_ne hcq, if_neg hcq]
      exact hm.once c hc

/-- An edge inside a group changes nothing. -/
theorem wired_join_same (hq : q < h.queueCount)
    (hdest : dest < h.queueCount) (hsame : (h.queue q).sink = (h.queue dest).sink) :
    Wired h { w with bypasses := w.bypasses ++ [(q, dest)] } := by
  refine { hm with edges := hm.edge hq hdest, labels := ?labels }
  refine (hm.labels.concat hq hdest).congr fun x _ => ?_
  split
  · next hx => rw [hx, hsame]
  · rfl

theorem wired_merge (hq : w.Open q) (hdest : w.Open dest)
    (hne : (h.queue q).sink ≠ (h.queue dest).sink) :
    Wired (mergeSinks h (h.queue q).sink (h.queue dest).sink dest)
      { w with bypasses := w.bypasses ++ [(q, dest)] } := by
  have hlt : q < h.queueCount := hm.lt_of_open hq
  have hltd : dest < h.queueCount := hm.lt_of_open hdest
  have hopen : (h.sink (h.queue q).sink).closed = false := hm.sink_open hq
  have hopend : (h.sink (h.queue dest).sink).closed = false := hm.sink_open hdest
  have hsrc := hm.points q hlt
  have hdst := hm.points dest hltd
  have htimer : (h.sink (h.queue dest).sink).timer = true := hm.timers dest hltd
  have hlabels : Labels (w.bypasses ++ [(q, dest)]) (· < h.queueCount) fun x =>
      if (h.queue x).sink = (h.queue q).sink then (h.queue dest).sink else (h.queue x).sink :=
    hm.labels.concat hlt hltd
  generalize (h.queue q).sink = src at *
  generalize (h.queue dest).sink = dst at *
  obtain ⟨queue, sink, heq, hqueue, hsinkSrc, hsinkDst, hsink⟩ := mergeSinks_spec h hne dest
  rw [heq]
  have hpoint : ∀ x < h.queueCount,
      (queue x).sink = if (h.queue x).sink = src then dst else (h.queue x).sink := by
    intro x hx
    rw [(hqueue x).1]
    simp [hm.mem_members hsrc, hx]
  have hsinkOf : ∀ x < h.queueCount, (sink (queue x).sink).timer = true ∧
      (sink (queue x).sink).closed = (h.sinkOf x).closed := by
    intro x hx
    rw [hpoint x hx, sinkOf]
    split
    · next hxs => rw [hsinkDst, hxs, hopen, hopend]; exact ⟨htimer, rfl⟩
    · next hxs =>
      by_cases hxd : (h.queue x).sink = dst
      · rw [hxd, hsinkDst]
        exact ⟨htimer, rfl⟩
      · rw [hsink _ hxs hxd]
        exact ⟨hm.timers x hx, rfl⟩
  refine
    { hm with
      edges := hm.edge hlt hltd
      points := ?points
      labels := hlabels.congr hpoint
      members := ?members
      channels := ?channels
      timers := fun x hx => (hsinkOf x hx).1
      closed := ?closed
      remaining := fun x hx => by rw [(hqueue x).2]; exact hm.remaining x hx
      once := ?once }
  case points =>
    intro x hx
    rw [hpoint x hx]
    split
    · exact hdst
    · exact hm.points x hx
  case members =>
    intro k hk
    show Collects _ (fun q => (queue q).sink) (sink k).members k
    by_cases hks : k = src
    · rw [hks, hsinkSrc]
      exact collects_src hpoint hne
    by_cases hkd : k = dst
    · rw [hkd, hsinkDst]
      exact (hm.members dst hdst).append hpoint hne (hm.members src hsrc)
    · rw [hsink k hks hkd]
      exact (hm.members k hk).other hpoint hks hkd
  case channels =>
    have hpoint : ∀ c < h.chanCount, (queue (w.owner c)).sink =
        if (h.queue (w.owner c)).sink = src then dst else (h.queue (w.owner c)).sink :=
      fun c hc => hpoint _ (hm.owners c hc)
    intro k hk
    show (sink k).closed = false →
      Collects _ (fun c => (queue (w.owner c)).sink) ((sink k).dsts.map Dst.ch) k
    by_cases hks : k = src
    · rw [hks, hsinkSrc]
      exact fun _ => collects_src hpoint hne
    by_cases hkd : k = dst
    · rw [hkd, hsinkDst, map_append]
      exact fun _ => (hm.channels dst hdst hopend).append hpoint hne (hm.channels src hsrc hopen)
    · rw [hsink k hks hkd]
      exact fun hopen => (hm.channels k hk hopen).other hpoint hks hkd
  case closed =>
    intro x hx
    show (sink (queue x).sink).closed = true ↔ _
    rw [(hsinkOf x hx).2]
    exact hm.closed x hx
  case once =>
    intro c hc
    show w.closes c = if (sink (queue (w.owner c)).sink).closed then 1 else 0
    rw [(hsinkOf _ (hm.owners c hc)).2]
    exact hm.once c hc

/-! ## Runs -/

theorem wired_bypass (hq : w.Open q) (hdest : w.Open dest) (hfine : ¬ Refuses h (.bypass q dest)) :
    ∃ h', bypass h q dest = .ok h' ∧ Wired h' (w.step (.bypass q dest)) := by
  have hlt : q < h.queueCount := hm.lt_of_open hq
  obtain ⟨hself, hfst⟩ := not_or.mp hfine
  have hmark : Wired (h.setQueue q { h.queue q with bypassed := true }) w := by
    have hset := wired_setQueue hm hlt (v := { h.queue q with bypassed := true }) rfl
    have hsame : update w.remaining q (h.queue q).remainingClosers = w.remaining := by
      rw [hm.remaining q hlt, update_eq_self]
    rw [hsame] at hset
    exact hset
  rw [bypass, if_neg hself, hm.assert_ok hq]
  refine ⟨_, if_neg hfst, ?_⟩
  split
  · next hsame => exact wired_join_same hmark hlt (hm.lt_of_open hdest) hsame
  · next hne => exact wired_merge hmark hq hdest hne

theorem wired_markCloseable (hq : w.Open q) :
    ∃ h', markCloseable h q = .ok h' ∧ Wired h' (w.step (.markCloseable q)) := by
  have hlt : q < h.queueCount := hm.lt_of_open hq
  have hmark := wired_setQueue hm hlt
    (v := { h.queue q with remainingClosers := (h.queue q).remainingClosers - 1 }) rfl
  simp only [markCloseable, step]
  simp only [hm.remaining q hlt] at hmark ⊢
  split
  · exact wired_closeGroup hmark hq
  · exact ⟨_, rfl, hmark⟩

/-- A call on open groups returns unless it is refused. -/
theorem wired_call (c : Call T) (hc : w.Allows c) : (Refuses h c ∧ ∃ e, call h c = .error e) ∨
      (¬ Refuses h c ∧ ∃ h', call h c = .ok h' ∧ Wired h' (w.step c)) := by
  cases c with
  | newQueue cfg => exact .inr ⟨id, _, rfl, wired_newQueue hm cfg⟩
  | subscribe q subscriber =>
    rw [call, subscribe, hm.assert_ok hc]
    by_cases hbuf : (h.sinkOf q).cfg.channelBufferLen < 0
    · exact .inl ⟨hbuf, _, if_pos hbuf⟩
    · exact .inr ⟨hbuf, _, if_neg hbuf, wired_addDst hm hc _ _⟩
  | bypass q dest =>
    by_cases href : Refuses h (.bypass q dest)
    · refine .inl ⟨href, ?_⟩
      rw [call, bypass]
      split
      · exact ⟨_, rfl⟩
      · next hself =>
        rw [hm.assert_ok hc.1]
        exact ⟨_, if_pos (href.resolve_left hself)⟩
    · exact .inr ⟨href, wired_bypass hm hc.1 hc.2 href⟩
  | send q o late => exact .inr ⟨id, wired_send hm hc o late⟩
  | close q => exact .inr ⟨id, wired_closeGroup hm hc⟩
  | markCloseable q => exact .inr ⟨id, wired_markCloseable hm hc⟩

end

/-- The heap after a call and the wiring after the calls that returned. -/
noncomputable def made (s : Heap T × Wiring T) (c : Call T) : Heap T × Wiring T :=
  match call s.1 c with
  | .ok h => (h, s.2.step c)
  | .error _ => s

theorem wired_made (s : Heap T × Wiring T) (c : Call T) (hm : Wired s.1 s.2)
    (hc : s.2.Allows c) : Wired (made s c).1 (made s c).2 := by
  rw [made]
  rcases wired_call hm c hc with ⟨-, e, herr⟩ | ⟨-, h', hok, hnext⟩
  · rw [herr]
    exact hm
  · rw [hok]
    exact hnext

/-- After any run of calls on open groups every channel holds what the wiring says,
and was closed once if its group was; every queue is listed once, by the sink it
points to; and only a bypass to itself, a second bypass and a channel of negative
size are refused. -/
theorem group_delivers_once (calls : List (Call T))
    (hopen : Along made (fun s c => s.2.Allows c) (Heap.empty, Wiring.empty) calls) :
    let s := calls.foldl made (Heap.empty, Wiring.empty)
    (∀ c, s.2.Allows c → ((∃ e, call s.1 c = .error e) ↔ Refuses s.1 c)) ∧
    s.1.chanCount = s.2.chanCount ∧
    (∀ c < s.1.chanCount, (s.1.chan c).sent = s.2.sent c ∧ (s.1.chan c).closes = s.2.closes c ∧
      (s.2.owner c ∈ s.2.closed → s.2.closes c = 1) ∧
      (s.2.owner c ∉ s.2.closed → s.2.closes c = 0)) ∧
    ∀ q < s.1.queueCount, (s.1.queue q).sink < s.1.sinkCount ∧ ∀ k < s.1.sinkCount,
      (s.1.sink k).members.count q = if k = (s.1.queue q).sink then 1 else 0 := by
  intro s
  have hm : Wired s.1 s.2 := hopen.inv wired_made wired_empty
  refine ⟨fun c hc => ?_, hm.chans, fun c hc => ⟨hm.sent c hc, hm.closes c hc, ?_, ?_⟩,
    fun q hq => ⟨hm.points q hq, fun k hk => ?_⟩⟩
  · rcases wired_call hm c hc with ⟨href, herr⟩ | ⟨hfine, h', hok, -⟩
    · exact iff_of_true herr href
    refine iff_of_false (fun herr => ?_) hfine
    obtain ⟨e, herr⟩ := herr
    rw [hok] at herr
    cases herr
  · intro hcl
    rw [hm.once c hc, if_pos ((hm.closed _ (hm.owners c hc)).mpr hcl)]
  · intro hcl
    rw [hm.once c hc, if_neg fun h => hcl ((hm.closed _ (hm.owners c hc)).mp h)]
  · have hmem := hm.mem_members hk q
    split
    · next hkq => exact count_eq_one_of_mem (hm.members k hk).1 (hmem.mpr ⟨hq, hkq.symm⟩)
    · next hkq => exact count_eq_zero.mpr fun h => hkq (hmem.mp h).2.symm

/-- Two queues that bypass to each other: the channel of the one gets what is sent to
either, and is closed with the other. -/
theorem group_delivers_once_cycle :
    let calls : List (Call Nat) := [.newQueue {}, .newQueue {}, .bypass 0 1, .subscribe 0 "s",
      .bypass 1 0, .send 0 7 fun _ => false, .send 1 8 fun _ => true, .close 1]
    let s := calls.foldl made (Heap.empty, Wiring.empty)
    (s.1.chan 0).sent = [7, 8] ∧ (s.1.chan 0).sent = s.2.sent 0 ∧ s.2.closes 0 = 1 := by
  intro calls s
  have hopen : Along made (fun s c => s.2.Allows c) (Heap.empty, Wiring.empty) calls :=
    ⟨trivial, trivial, ⟨⟨Nat.zero_lt_two, id⟩, Nat.one_lt_two, id⟩, ⟨Nat.zero_lt_two, id⟩,
      ⟨⟨Nat.one_lt_two, id⟩, Nat.zero_lt_two, id⟩, ⟨Nat.zero_lt_two, id⟩, ⟨Nat.one_lt_two, id⟩,
      ⟨Nat.one_lt_two, id⟩, trivial⟩
  obtain ⟨-, -, hchans, -⟩ := group_delivers_once calls hopen
  obtain ⟨hsent, -, hcl, -⟩ := hchans 0 one_pos
  have hconnected : Connected [(0, 1), (1, 0)] 1 0 := .rel _ _ (by decide)
  exact ⟨rfl, hsent, hcl (.inr hconnected)⟩

end Obi.Refine
