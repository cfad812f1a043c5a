import Obi.Ref.ServerTraceIndex

/-!
# Concurrent server requests of one trace are not guessed

A reference that is not ambiguous is to the only request of its trace that may still be
live: the next one makes it ambiguous unless it is over. A trace without a reference has
no live request.
-/

namespace Obi.Refine
open Lib Ref TraceIndexState List

/-- The reference of a request still leads to it. -/
def LiveRequest (maps : OngoingMaps) (r : ServerRequest) : Prop :=
  (indexedServerTp maps r.ref).isSome = true

/-- What is known of requests: each has a span id of its own, one that is over is not live
again, and is unindexed only then. -/
def RequestLives (s : TraceIndexState) : TraceIndexEvent → Prop
  | .ongoing maps => ∀ r ∈ s.indexed, LiveRequest maps r → LiveRequest s.maps r
  | .index r => ∀ q ∈ s.indexed, q.tp.spanId = r.tp.spanId → q = r
  | .unindex r => ¬ LiveRequest s.maps r ∧ ∀ q ∈ s.indexed, q.tp.spanId = r.tp.spanId → q = r

/-- What the index says of the requests of one process and trace. -/
def KeepsOne (s : TraceIndexState) (key : HttpServerTraceKey) : Option HttpServerTraceRef → Prop
  | none => ∀ r ∈ s.indexed, r.key = key → ¬ LiveRequest s.maps r
  | some ref => ref.ambiguous = false → (∃ r ∈ s.indexed, r.key = key ∧ ref = r.ref) ∧
        ∀ r ∈ s.indexed, r.key = key → LiveRequest s.maps r → ref = r.ref

structure Indexed (s : TraceIndexState) : Prop where
  keeps : ∀ key, KeepsOne s key (s.index.lookup key)
  distinct : ∀ q ∈ s.indexed, ∀ r ∈ s.indexed, q.tp.spanId = r.tp.spanId → q = r

variable {s : TraceIndexState} {maps : OngoingMaps} {r : ServerRequest}

theorem indexed_ongoing (hs : Indexed s)
    (hlives : ∀ r ∈ s.indexed, LiveRequest maps r → LiveRequest s.maps r) :
    Indexed (s.step (.ongoing maps)) := by
  refine ⟨fun key => ?_, hs.distinct⟩
  have hkp := hs.keeps key
  show KeepsOne _ key (s.index.lookup key)
  cases hlook : s.index.lookup key with
  | none =>
    rw [hlook] at hkp
    exact fun r hr hkey hlive => hkp r hr hkey (hlives r hr hlive)
  | some ref =>
    rw [hlook] at hkp
    intro hclr
    obtain ⟨hone, hoths⟩ := hkp hclr
    exact ⟨hone, fun r hr hkey hlive => hoths r hr hkey (hlives r hr hlive)⟩

/-- What indexing a request leaves at a key. -/
theorem lookup_index (maps : OngoingMaps) (index : HttpServerTraceIndex) (r : ServerRequest)
    (hval : validTrace r.tp.traceId = true ∧ validSpan r.tp.spanId = true)
    (key : HttpServerTraceKey) :
    (indexHttpServerContext maps index r.stream r.tp).lookup key = if key = r.key then
        match index.lookup r.key with
        | none => some r.ref
        | some existing =>
          if existing.spanId = r.tp.spanId then some existing
          else if existing.ambiguous = false ∧ indexedServerTp maps existing = none then
            some r.ref
          else some { existing with ambiguous := true }
      else index.lookup key := by
  rw [indexHttpServerContext, if_neg (by rw [hval.1, hval.2]; decide)]
  simp only [ServerRequest.key]
  cases hlook : index.lookup (httpServerTraceKey r.stream.pidConn.pid r.tp.traceId) with
  | none => exact Table.get_insert ..
  | some existing =>
    simp only [indexesRequest, beq_iff_eq, Bool.not_eq_true]
    split
    · split
      · next heq => rw [heq, hlook]
      · rfl
    split
    · exact Table.get_insert ..
    · exact Table.get_insert ..

/-- The first request of its trace, or the first after those before it are over. -/
theorem keepsOne_new {rs : List ServerRequest}
    (hover : ∀ q ∈ rs, q.key = r.key → ¬ LiveRequest s.maps q) (hrs : s.indexed = r :: rs) :
    KeepsOne s r.key (some r.ref) := by
  refine fun _ => ⟨⟨r, hrs ▸ mem_cons_self, rfl, rfl⟩, fun q hq hkey hlive => ?_⟩
  rw [hrs] at hq
  rcases mem_cons.mp hq with rfl | hq
  · rfl
  · exact absurd hlive (hover q hq hkey)

theorem indexed_index (hs : Indexed s)
    (hdist : ∀ q ∈ s.indexed, q.tp.spanId = r.tp.spanId → q = r) :
    Indexed (s.step (.index r)) := by
  by_cases hval : validTrace r.tp.traceId = true ∧ validSpan r.tp.spanId = true
  · have hnext : (s.step (.index r)).indexed = r :: s.indexed :=
      if_pos (Bool.and_eq_true _ _ ▸ hval)
    have hfresh : ∀ q ∈ r :: s.indexed, q.tp.spanId = r.tp.spanId → q = r :=
      forall_mem_cons.mpr ⟨fun _ => rfl, hdist⟩
    refine ⟨fun key => ?_, fun q hq q' hq' hspan => ?_⟩
    · show KeepsOne _ key ((indexHttpServerContext s.maps s.index r.stream r.tp).lookup key)
      have hkp := hs.keeps key
      rw [lookup_index s.maps s.index r hval]
      split
      · next heq =>
        subst heq
        cases hlook : s.index.lookup r.key with
        | none =>
          rw [hlook] at hkp
          exact keepsOne_new hkp hnext
        | some existing =>
          rw [hlook] at hkp
          simp only
          split
          · next hspan =>
            intro hclr
            obtain ⟨⟨q, hq, -, rfl⟩, hoths⟩ := hkp hclr
            obtain rfl : q = r := hdist q hq hspan
            refine ⟨⟨q, hnext ▸ mem_cons_self, rfl, rfl⟩, fun p hp hkey hlive => ?_⟩
            rcases mem_cons.mp (hnext ▸ hp) with rfl | hp
            · rfl
            · exact hoths p hp hkey hlive
          · split
            · next hgone =>
              refine keepsOne_new (fun q hq hkey hlive => ?_) hnext
              have hlive : (indexedServerTp s.maps q.ref).isSome = true := hlive
              rw [← (hkp hgone.1).2 q hq hkey hlive, hgone.2] at hlive
              cases hlive
            · exact fun hclr => nomatch hclr
      · next hne =>
        have hold : ∀ q ∈ r :: s.indexed, q.key = key → q ∈ s.indexed := by
          rintro q hq rfl
          exact (mem_cons.mp hq).resolve_left fun heq => hne (heq ▸ rfl)
        cases hlook : s.index.lookup key with
        | none =>
          rw [hlook] at hkp
          exact fun q hq hkey => hkp q (hold q (hnext ▸ hq) hkey) hkey
        | some ref =>
          rw [hlook] at hkp
          intro hclr
          obtain ⟨⟨q, hq, hqref⟩, hoths⟩ := hkp hclr
          exact ⟨⟨q, hnext ▸ mem_cons_of_mem _ hq, hqref⟩,
            fun q hq hkey => hoths q (hold q (hnext ▸ hq) hkey) hkey⟩
    · rw [hnext] at hq hq'
      rcases mem_cons.mp hq with rfl | hold
      · exact (hfresh q' hq' hspan.symm).symm
      rcases mem_cons.mp hq' with rfl | hq'
      · exact hdist q hold hspan
      · exact hs.distinct q hold q' hq' hspan
  · have hsame : s.step (.index r) = s := by
      rw [step, indexHttpServerContext, if_pos, if_neg]
      · rwa [Bool.and_eq_true]
      · rwa [← not_and_or]
    rwa [hsame]

theorem indexed_unindex (hs : Indexed s) (hover : ¬ LiveRequest s.maps r)
    (hdist : ∀ q ∈ s.indexed, q.tp.spanId = r.tp.spanId → q = r) :
    Indexed (s.step (.unindex r)) := by
  refine ⟨fun key => ?_, hs.distinct⟩
  have hkp := hs.keeps key
  show KeepsOne s key ((unindexHttpServerTrace s.index r.stream.pidConn.pid r.tp).lookup key)
  simp only [unindexHttpServerTrace]
  split
  · exact hkp
  · next ref hlook =>
    split
    · next hcond =>
      simp only [indexesRequest, beq_iff_eq, Bool.not_eq_true] at hcond
      rw [Table.get_erase]
      split
      · next heq =>
        rw [heq, hlook] at hkp
        intro q hq hkey hlive
        obtain rfl := (hkp hcond.1).2 q hq (hkey.trans heq) hlive
        exact hover (hdist q hq hcond.2 ▸ hlive)
      · exact hkp
    · exact hkp

theorem indexed_of_run {run : List TraceIndexEvent}
    (hrun : Along step RequestLives (.start maps) run) :
    Indexed (run.foldl step (.start maps)) := by
  refine Along.inv (fun s e hs hok => ?_) ⟨fun key => ?_, ?_⟩ hrun
  · cases e with
    | ongoing maps => exact indexed_ongoing hs hok
    | index r => exact indexed_index hs hok
    | unindex r => exact indexed_unindex hs hok.1 hok.2
  · exact fun r hr => nomatch hr
  · exact fun q hq => nomatch hq

/-- As long as two indexed requests of a trace are live, no parent is found for the trace;
and one that is found is the context of an indexed request of the trace that is live. -/
theorem concurrent_requests_not_guessed {maps : OngoingMaps} {run : List TraceIndexEvent}
    (hrun : Along step RequestLives (.start maps) run) (s : TraceIndexState)
    (hs : s = run.foldl step (.start maps)) (mem : Bool) (pid : Nat)
    (wireTp : TpInfo) :
    (∀ q ∈ s.indexed, ∀ r ∈ s.indexed, q ≠ r → q.key = httpServerTraceKey pid wireTp.traceId →
      r.key = httpServerTraceKey pid wireTp.traceId → LiveRequest s.maps q →
      LiveRequest s.maps r → findHttpServerTrace s.maps s.index mem pid wireTp = none) ∧
    ∀ parent, findHttpServerTrace s.maps s.index mem pid wireTp = some parent →
      ∃ r ∈ s.indexed, r.key = httpServerTraceKey pid wireTp.traceId ∧
        indexedServerTp s.maps r.ref = some parent.tp := by
  have hindexed : Indexed s := hs ▸ indexed_of_run hrun
  have hkp := hindexed.keeps (httpServerTraceKey pid wireTp.traceId)
  rw [findHttpServerTrace]
  cases hlook : s.index.lookup (httpServerTraceKey pid wireTp.traceId) with
  | none => exact ⟨fun _ _ _ _ _ _ _ _ _ => rfl, fun _ h => nomatch h⟩
  | some ref =>
    rw [hlook] at hkp
    simp only
    split
    · exact ⟨fun _ _ _ _ _ _ _ _ _ => rfl, fun _ h => nomatch h⟩
    · next hclr =>
      obtain ⟨⟨r, hr, hkey, rfl⟩, hoths⟩ := hkp (Bool.not_eq_true _ ▸ hclr)
      refine ⟨fun q hq p hp hne hqkey hpkey hqlive hplive => ?_, fun parent h => ?_⟩
      · have hspan := (hoths q hq hqkey hqlive).symm.trans (hoths p hp hpkey hplive)
        exact absurd (hindexed.distinct q hq p hp (congrArg (·.spanId) hspan)) hne
      refine ⟨r, hr, hkey, ?_⟩
      split at h
      · cases h
      · next tp hfnd =>
        split at h
        · cases h
        split at h
        · cases h
        · cases h
          exact hfnd

/-- A request of the trace on a stream of the process 7. -/
def streamRequest (stream : UInt8) : ServerRequest :=
  ⟨⟨⟨⟨zeroId 16, zeroId 16, 0, 0⟩, 7⟩, stream.toNat⟩, { TpInfo.zero with
      traceId := ⟨1 :: replicate 15 0, rfl⟩
      spanId := ⟨stream :: replicate 7 0, rfl⟩ }⟩

def streamsOngoing : OngoingMaps where
  ongoingHttp2Grpc s := some ⟨1, 0, 1, 0, (streamRequest (UInt8.ofNat s.streamId)).tp⟩
  ongoingHttp2Connections _ := some 0
  ongoingHttp _ := none

theorem concurrent_requests_not_guessed_two :
    let run := [.index (streamRequest 1), .index (streamRequest 3)]
    let s := run.foldl step (.start streamsOngoing)
    Along step RequestLives (.start streamsOngoing) run ∧
      findHttpServerTrace s.maps s.index true 7 (streamRequest 1).tp = none := by
  have hrun : Along step RequestLives (.start streamsOngoing)
      [.index (streamRequest 1), .index (streamRequest 3)] :=
    ⟨by unfold RequestLives; decide, by unfold RequestLives; decide, trivial⟩
  exact ⟨hrun, (concurrent_requests_not_guessed hrun _ rfl true 7 (streamRequest 1).tp).1
    (streamRequest 1) (by decide) (streamRequest 3) (by decide) (by decide) rfl rfl rfl rfl⟩

end Obi.Refine
