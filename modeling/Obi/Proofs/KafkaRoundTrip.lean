import Obi.Proofs.KafkaParser

/-!
# Kafka messages are read back

The parsers swallow the errors of a topic and go on behind it, so a field that is
skipped wrongly would show in all later topics. On a whole message no field is:
each topic is taken with exactly its own bytes, and the list comes back with the
first partition of each topic.
-/

namespace Obi.Refine
open Lib Ref Spec List KafkaParser
variable {α κ : Type} {header : KafkaRequestHeader} {u v w : List UInt8}

/-! ## Loops -/

theorem flat_topicsLoop (topic : Nat → KafkaParser α) (n : Nat) (l : List UInt8) :
    (flat (parseTopicsLoop topic n) l).1 = .ok (collect (fun k => flat (topic k)) n l) := by
  induction n generalizing l with
  | zero => rfl
  | succ n ih =>
    rw [parseTopicsLoop, flat_attempt, collect]
    rcases flat (topic n) l with ⟨e | t, rest⟩
    · rfl
    rw [flat_bind, andThen]
    have hrest := ih rest
    generalize flat (parseTopicsLoop topic n) rest = out at hrest ⊢
    obtain ⟨ts, rest'⟩ := out
    cases hrest
    rfl

/-- The topics that are there are collected. What the last one leaves is not
looked at. -/
theorem collect_each {ι : Type} {P : ι → Layout} {f : ι → α}
    {p : Nat → Take UInt8 KafkaError α}
    (hp : ∀ x w, P x w → ∀ n t, ∃ rest, p n (w ++ t) = (.ok (f x), rest) ∧ (n ≠ 0 → rest = t))
    {xs : List ι} (h : Each P xs w) (k : Nat) (t : List UInt8) :
    collect p (min k xs.length) (w ++ t) = (xs.take k).map f := by
  induction xs generalizing w k with
  | nil =>
    rw [length_nil, min_zero, take_nil]
    rfl
  | cons x xs ih =>
    obtain ⟨u, v, hx, hxs, rfl⟩ := h
    cases k with
    | zero => rfl
    | succ k =>
      obtain ⟨rest, hread, hrest⟩ := hp x u hx (min k xs.length) (v ++ t)
      rw [length_cons, Nat.succ_min_succ, collect, append_assoc, hread]
      refine congrArg (f x :: ·) ?_
      -- no topic is asked for behind the last one, so what it leaves does not matter
      by_cases hlast : min k xs.length = 0
      · have hnil : xs.take k = [] := length_eq_zero_iff.mp (by rw [length_take, hlast])
        rw [hlast, hnil]
        rfl
      · rw [hrest hlast]
        exact ih hxs k

variable {partitions : Option κ → Nat → KafkaParser (Option κ × Bool)} {P : κ → Layout}

/-- The first partition is kept. -/
theorem flat_partitions (hzero : ∀ kept l, flat (partitions kept 0) l = (.ok (kept, true), l))
    (hsucc : ∀ x w, P x w → ∀ kept n t, flat (partitions kept (n + 1)) (w ++ t) =
      flat (partitions (some (kept.getD x)) n) t)
    {xs : List κ} (h : Each P xs w) (kept : Option κ) :
    Reads (flat (partitions kept xs.length)) w (kept.or xs.head?, true) := by
  intro t
  induction xs generalizing w kept with
  | nil =>
    obtain rfl : w = [] := h
    rw [length_nil, hzero, head?_nil, Option.or_none]
    rfl
  | cons x xs ih =>
    obtain ⟨u, v, hx, hxs, rfl⟩ := h
    rw [length_cons, append_assoc, hsucc x u hx, ih hxs]
    cases kept <;> rfl

/-! ## Topics of requests -/

theorem reads_topicName {topic : List UInt8 → Option UUID → α} {id : TopicId}
    (h : IsRequestTopic header id w) :
    Reads (flat (parseRequestTopicName header topic)) w (topic id.name id.uuid) := by
  rw [IsRequestTopic] at h
  rw [parseRequestTopicName]
  by_cases hver : header.apiVersion ≥ 13
  · rw [if_pos hver] at h ⊢
    obtain ⟨uuid, rfl, huuid⟩ := h
    exact reads_bind_pure (reads_uuid huuid) (reads_pure _)
  · rw [if_neg hver] at h ⊢
    obtain ⟨hname, huuid, hlayout⟩ := h
    rw [huuid]
    exact reads_bind_pure (reads_string false hname hlayout) (reads_pure _)

theorem reads_requestTopic {topic : List UInt8 → Option UUID → α} {keep : α → Option κ → α}
    (hparts : ∀ {xs : List κ} {w : List UInt8}, Each P xs w →
      Reads (flat (partitions none xs.length)) w (xs.head?, true))
    {x : TopicId × List κ} (h : IsTopicOf header P x w) :
    Reads (flat (parseRequestTopic header (parseRequestTopicName header topic) (partitions none)
      keep)) w (keep (topic x.1.name x.1.uuid) x.2.head?) := by
  obtain ⟨w₁, _, hname, ⟨_, w₄, ⟨w₂, w₃, hlen, heach, rfl⟩, htags, rfl⟩, rfl⟩ := h
  -- behind the name the errors are caught, so the steps are run one by one
  refine reads_bind (reads_topicName hname) fun t => ?_
  rw [append_assoc, append_assoc, flat_attempt, reads_arrayLength hlen]
  simp only [Int.toNat_natCast]
  rw [flat_bind, andThen, hparts heach]
  change flat (attempt (skipTaggedFields header) >>= fun _ => pure _) _ = _
  rw [flat_attempt, reads_taggedFields htags]
  rfl

/-! ## Messages -/

/-- The head of a message is read, and the topics behind it, `n` at most, are
what is returned, if there are any. -/
def ReadsTopics {ρ : Type} (request : KafkaParser ρ) (topicsOf : ρ → List α)
    (topic : Nat → KafkaParser α) (head : List UInt8) (n : Nat) : Prop :=
  ∀ t, collect (fun k => flat (topic k)) n t ≠ [] →
    ∃ res rest, flat request (head ++ t) = (.ok res, rest) ∧
      topicsOf res = collect (fun k => flat (topic k)) n t

/-- A request is returned if it has topics. -/
def orNoTopics {ρ : Type} (e : KafkaError) (request : List α → ρ) (topics : List α) :
    KafkaParser ρ :=
  if topics.isEmpty then throw e else return request topics

theorem readsTopics_orNoTopics {ρ : Type} {first : KafkaParser Int}
    {topic : Nat → KafkaParser α} {count : Int} {n : Nat}
    (body : Int → KafkaParser (List α)) (e : KafkaError) (mk : List α → ρ)
    (topicsOf : ρ → List α) (hfst : Reads (flat first) w count)
    (hbody : ∀ t, (flat (body count) t).1 = .ok (collect (fun k => flat (topic k)) n t))
    (hmk : ∀ topics, topicsOf (mk topics) = topics) :
    ReadsTopics (first >>= fun count => body count >>= orNoTopics e mk) topicsOf topic w n := by
  intro t hne
  rw [flat_bind, andThen, hfst]
  simp only [flat_bind, andThen]
  have htops := hbody t
  generalize flat (body count) t = out at htops ⊢
  obtain ⟨topics, rest⟩ := out
  cases htops
  cases hlist : collect (fun k => flat (topic k)) n t with
  | nil => exact absurd hlist hne
  | cons a as => exact ⟨mk (a :: as), rest, rfl, hmk _⟩

variable {chunks : List (List UInt8)} {r : LargeBufferReader} {front : Nat} {trailing : List UInt8}

theorem before_skip (h : (bufferOf chunks).newReader.skip front = some (.ok (), r)) :
    Before r (chunks.flatten.drop front) := by
  obtain ⟨r', hskip, hbef⟩ := before_answer (.skip front) _ _ (before_newReader chunks)
  change (bufferOf chunks).newReader.skip front = _ at hskip
  rw [h] at hskip
  rw [flatAnswer] at hskip hbef
  split at hskip
  · next hle =>
    rw [if_pos hle] at hbef
    cases hskip
    exact hbef
  · cases hskip

section
variable {ρ ι : Type} {request : KafkaParser ρ} {topicsOf : ρ → List α}
  {topic : Nat → KafkaParser α}
  {head : List UInt8} {xs : List ι} {P : ι → Layout} {f : ι → α} (hxs : Each P xs v)
  (hp : ∀ x w, P x w → ∀ n t, ∃ rest, flat (topic n) (w ++ t) = (.ok (f x), rest) ∧
    (n ≠ 0 → rest = t)) (hne : xs ≠ [])
  (hr : (bufferOf chunks).newReader.skip front = some (.ok (), r))
  (hwire : chunks.flatten.drop front = head ++ v ++ trailing)

include hxs hp hne hr hwire

/-- A message whose topics are all there, of which the first `k` are looked at. -/
theorem on_readsTopics {k : Nat} (hk : k ≠ 0)
    (h : ReadsTopics request topicsOf topic head (min k xs.length)) :
    ∃ req r', request.on r = some (.ok req, r') ∧ topicsOf req = (xs.take k).map f := by
  obtain ⟨r', hon, -⟩ := on_eq_flat request (before_skip hr)
  have hcollect := collect_each hp hxs k trailing
  have hsome : (xs.take k).map f ≠ [] := by
    intro hnil
    exact not_or.mpr ⟨hk, hne⟩ (take_eq_nil_iff.mp (map_eq_nil_iff.mp hnil))
  obtain ⟨req, rest, hread, htops⟩ := h (v ++ trailing) (by rwa [hcollect])
  rw [hwire, append_assoc, hread] at hon
  exact ⟨req, r', hon, htops.trans hcollect⟩

theorem on_readsAllTopics (h : ReadsTopics request topicsOf topic head xs.length) :
    ∃ req r', request.on r = some (.ok req, r') ∧ topicsOf req = xs.map f := by
  rw [← min_self xs.length] at h
  have hon := on_readsTopics hxs hp hne hr hwire (mt length_eq_zero_iff.mp hne) h
  rwa [take_length] at hon

end

/-! ### Parts of small messages -/

theorem isVarint_byte {b : UInt8} (h : b < 128) : IsVarint b.toNat [b] :=
  ⟨⟨[], b, fun _ hb => absurd hb not_mem_nil, h, Nat.zero_le 4⟩, rfl, rfl⟩

/-- One tagged field, of two bytes. -/
def oneTag : List UInt8 := [1, 0, 2, 9, 9]

theorem taggedFields_one : IsTaggedFields true oneTag :=
  ⟨1, [1], _, isVarint_byte (b := 1) (by decide), ⟨_, [], ⟨0, 2, [0], _,
    isVarint_byte (b := 0) (by decide), ⟨[2], [9, 9], isVarint_byte (b := 2) (by decide),
      rfl, rfl⟩, rfl⟩, rfl, rfl⟩, rfl⟩

theorem arrayLength_two : IsArrayLength true 2 [3] := isVarint_byte (b := 3) (by decide)

theorem isUUID_replicate (b : UInt8) : IsUUID (Vector.replicate 16 b) (List.replicate 16 b) := rfl

/-- A topic by its UUID, its partitions, and a tagged field. -/
def uuidTopic (b count : UInt8) (partitions : List UInt8) : List UInt8 :=
  List.replicate 16 b ++ (count :: partitions ++ oneTag)

theorem isTopicOf_uuid {π : Type} {P : π → Layout} {ps : List π} (hver : header.apiVersion ≥ 13)
    (hflex : flexibleVersion header = true) (h : Each P ps w) {count : UInt8}
    (hcount : count.toNat = ps.length + 1) (hbyte : count < 128) (b : UInt8) :
    IsTopicOf header P (⟨[], some (Vector.replicate 16 b)⟩, ps) (uuidTopic b count w) := by
  have hlen : IsVarint (ps.length + 1) [count] := hcount ▸ isVarint_byte hbyte
  rw [IsTopicOf, hflex]
  refine ⟨_, _, ?_, ⟨count :: w, _, ⟨[count], w, hlen, h, rfl⟩, taggedFields_one, rfl⟩, rfl⟩
  rw [IsRequestTopic, if_pos hver]
  exact ⟨Vector.replicate 16 b, rfl, isUUID_replicate b⟩

/-- The bytes in four chunks. -/
def inChunks (l : List UInt8) : List (List UInt8) :=
  [l.take 20, (l.drop 20).take 45, [], l.drop 65]

theorem drop_inChunks (l : List UInt8) : (inChunks l).flatten.drop 0 = l := by
  have hrest : l.drop 65 = (l.drop 20).drop 45 := by rw [drop_drop]
  simp only [inChunks, flatten_cons, flatten_nil, append_nil, nil_append, hrest,
    take_append_drop, drop_zero]

theorem skip_nothing (chunks : List (List UInt8)) :
    (bufferOf chunks).newReader.skip 0 = some (.ok (), (bufferOf chunks).newReader) := by
  obtain ⟨f, -, v⟩ := newReader_views (bufferOf chunks)
  have hrem : ¬ ((0 : Int) < 0 ∨ (f.remaining : Int) < 0) := by omega
  rw [LargeBufferReader.skip, v.remaining]
  simp only [if_neg hrem]
  rfl

/-! ## Fetch requests -/

theorem reads_fetchPartition {p : FetchPartition} (h : IsFetchPartition header p w) :
    Reads (flat (parseFetchPartition header)) w p := by
  obtain ⟨w₁, _, hindex, ⟨w₂, _, hepoch, ⟨w₃, _, ⟨hw, hvalue⟩,
    ⟨w₄, w₅, hrest, htag, rfl⟩, rfl⟩, rfl⟩, rfl⟩ := h
  have hleader : Reads (flat (skipLeaderEpoch header)) w₂ () := by
    rw [skipLeaderEpoch]
    by_cases hver : header.apiVersion ≥ 9
    · rw [if_pos hver] at hepoch ⊢
      exact reads_skip hepoch
    rw [if_neg hver] at hepoch ⊢
    obtain rfl : w₂ = [] := hepoch
    exact reads_pure ()
  have hoff : Reads (flat readInt64) w₃ p.fetchOffset := by
    rw [← hvalue]
    exact reads_bind_pure (reads_readNOr _ hw) (reads_pure _)
  have hlen : fetchPartitionSkipLen header = fetchPartitionRest header := by
    rw [fetchPartitionSkipLen, fetchPartitionRest]
    split
    · rfl
    split
    · rfl
    · rfl
  refine reads_bind (reads_int32 hindex) (reads_bind hleader (reads_bind hoff ?_))
  refine reads_bind (reads_len hlen hrest) ?_
  exact reads_bind_pure (reads_taggedFields htag) (reads_pure _)

theorem reads_fetchPartitions {ps : List FetchPartition}
    (h : Each (IsFetchPartition header) ps w) :
    Reads (flat (parseFetchPartitions header none ps.length)) w (ps.head?, true) := by
  refine flat_partitions (fun _ _ => rfl) (fun p w hp kept n t => ?_) h none
  rw [parseFetchPartitions, flat_attempt, reads_fetchPartition hp]

/-- The number of topics of a request. -/
def fetchTopicsLen (header : KafkaRequestHeader) : KafkaParser Int := do
  fetchRequestSkipUntilTopics header
  if (← remaining) = 0 then throw .offsetExceedsPacketSize
  else readArrayLength header

theorem arrayLength_ne_nil {flexible : Bool} {k : Nat} (h : IsArrayLength flexible k w) :
    w ≠ [] := by
  rw [IsArrayLength] at h
  split at h
  · obtain ⟨v, -, rfl⟩ := h
    exact concat_ne_nil _ _
  · rintro rfl
    cases h.1

theorem reads_fetchTopicsLen (hver : 4 ≤ header.apiVersion) {n : Nat}
    (hblk : IsBlock (fetchHeadLen header) u)
    (hlen : IsArrayLength (flexibleVersion header) n v) :
    Reads (flat (fetchTopicsLen header)) (u ++ v) n := by
  have hskipLen : fetchRequestSkipLen header = fetchHeadLen header ∧
      fetchRequestSkipLen header > 0 := by
    rw [fetchRequestSkipLen, fetchHeadLen]
    split
    · exact ⟨rfl, by decide⟩
    split
    · exact ⟨rfl, by decide⟩
    · exact ⟨rfl, by decide⟩
  have hskip : Reads (flat (fetchRequestSkipUntilTopics header)) u () := by
    rw [fetchRequestSkipUntilTopics, if_pos hskipLen.2]
    exact reads_len hskipLen.1 hblk
  refine reads_bind hskip fun t => ?_
  have hne : ¬ ((v ++ t).length : Int) = 0 := by
    have hpos := length_pos_iff.mpr (arrayLength_ne_nil hlen)
    rw [length_append]
    omega
  rw [flat_bind, andThen, flat_remaining]
  simp only [if_neg hne]
  exact reads_arrayLength hlen t

theorem flat_fetchRequest :
    flat (parseFetchRequest header) = flat (fetchTopicsLen header >>= fun topicsLen =>
      parseTopicsLoop (fun _ => parseFetchTopic header) topicsLen.toNat >>=
        orNoTopics .noTopics FetchRequest.mk) := by
  -- the two differ only in where the number of topics is read
  funext l
  rw [parseFetchRequest, fetchTopicsLen]
  simp only [flat_bind, andThen]
  rcases flat (fetchRequestSkipUntilTopics header) l with ⟨e | u, rest⟩
  · rfl
  simp only [flat_remaining]
  by_cases hnil : (rest.length : Int) = 0
  · simp only [if_pos hnil]
    rfl
  simp only [if_neg hnil, parseFetchTopics, flat_bind, andThen]
  rcases flat (readArrayLength header) rest with ⟨e | topicsLen, rest1⟩
  · rfl
  · rfl

theorem readsTopics_fetch (hver : 4 ≤ header.apiVersion) {n : Nat}
    (hblk : IsBlock (fetchHeadLen header) u)
    (hlen : IsArrayLength (flexibleVersion header) n v) :
    ReadsTopics (parseFetchRequest header) FetchRequest.topics
      (fun _ => parseFetchTopic header) (u ++ v) n := by
  rw [ReadsTopics, flat_fetchRequest]
  exact readsTopics_orNoTopics _ .noTopics FetchRequest.mk FetchRequest.topics
    (reads_fetchTopicsLen hver hblk hlen) (flat_topicsLoop (fun _ => parseFetchTopic header) n)
    fun _ => rfl

/-- The topics of a Fetch request, each with its first partition. -/
theorem fetch_request_read {topics : List (TopicId × List FetchPartition)}
    (h : FetchEncoding header topics w) (front : Nat) (trailing : List UInt8)
    (hr : (bufferOf chunks).newReader.skip front = some (.ok (), r))
    (hwire : chunks.flatten.drop front = w ++ trailing) :
    ∃ req r', (parseFetchRequest header).on r = some (.ok req, r') ∧
      req.topics = topics.map fun t => ⟨t.1.name, t.1.uuid, t.2.head?⟩ := by
  obtain ⟨u, _, hblk, ⟨v, w', hlen, heach, rfl⟩, rfl⟩ := h.layout
  rw [← append_assoc] at hwire
  exact on_readsAllTopics heach
    (fun x w hx n t => ⟨t, reads_requestTopic reads_fetchPartitions hx t, fun _ => rfl⟩)
    h.someTopic hr hwire (readsTopics_fetch h.version.1 hblk hlen)

def fetchPartitionBytes (index offset : UInt8) : List UInt8 :=
  [0, 0, 0, index] ++ ([0, 0, 0, 0] ++ ([0, 0, 0, 0, 0, 0, 0, offset] ++
    (List.replicate 16 0 ++ oneTag)))

theorem isFetchPartition_bytes {index offset : UInt8} {p : FetchPartition}
    (hindex : Scalar.i32be.decode [0, 0, 0, index] = p.partition)
    (hoff : Scalar.i64be.decode [0, 0, 0, 0, 0, 0, 0, offset] = p.fetchOffset) :
    IsFetchPartition ⟨.fetch, 13⟩ p (fetchPartitionBytes index offset) :=
  ⟨_, _, ⟨rfl, hindex⟩, ⟨_, _, show IsBlock 4 [0, 0, 0, 0] from rfl, ⟨_, _, ⟨rfl, hoff⟩, ⟨_, _,
    show IsBlock 16 (List.replicate 16 0) from rfl, taggedFields_one, rfl⟩, rfl⟩, rfl⟩, rfl⟩

/-- Two topics, the first with two partitions. -/
def twoTopicsFetch : List UInt8 :=
  List.replicate 25 0 ++ ([3] ++
    (uuidTopic 1 3 (fetchPartitionBytes 3 5 ++ fetchPartitionBytes 4 6) ++
      (uuidTopic 2 2 (fetchPartitionBytes 4 6) ++ [])))

theorem fetch_request_read_two : ∃ req r', (parseFetchRequest ⟨.fetch, 13⟩).on
      (bufferOf (inChunks (twoTopicsFetch ++ [1]))).newReader = some (.ok req, r') ∧
    req.topics = [⟨[], some (Vector.replicate 16 1), some ⟨3, 5⟩⟩,
      ⟨[], some (Vector.replicate 16 2), some ⟨4, 6⟩⟩] := by
  have hlast : Each (IsFetchPartition ⟨.fetch, 13⟩) [⟨4, 6⟩] (fetchPartitionBytes 4 6) :=
    ⟨_, [], isFetchPartition_bytes (by decide +kernel) (by decide +kernel), rfl,
      (append_nil _).symm⟩
  have hfst : Each (IsFetchPartition ⟨.fetch, 13⟩) [⟨3, 5⟩, ⟨4, 6⟩]
      (fetchPartitionBytes 3 5 ++ fetchPartitionBytes 4 6) :=
    ⟨_, _, isFetchPartition_bytes (by decide +kernel) (by decide +kernel), hlast, rfl⟩
  have henc : FetchEncoding ⟨.fetch, 13⟩
      [(⟨[], some (Vector.replicate 16 1)⟩, [⟨3, 5⟩, ⟨4, 6⟩]),
        (⟨[], some (Vector.replicate 16 2)⟩, [⟨4, 6⟩])] twoTopicsFetch := by
    refine ⟨rfl, by decide, cons_ne_nil _ _, _, _,
      show IsBlock 25 (List.replicate 25 0) from rfl,
      ⟨_, _, arrayLength_two, ⟨_, _, ?_, ⟨_, [], ?_, rfl, rfl⟩, rfl⟩, rfl⟩, rfl⟩
    · exact isTopicOf_uuid (by decide) rfl hfst rfl (by decide) 1
    · exact isTopicOf_uuid (by decide) rfl hlast rfl (by decide) 2
  exact fetch_request_read henc 0 [1] (skip_nothing _) (drop_inChunks _)

/-! ## Produce requests -/

theorem reads_produceRecords (h : IsRecords (flexibleVersion header) w) :
    Reads (flat (skipProduceRecords header)) w () := by
  rw [skipProduceRecords, isFlexible_eq]
  cases hflex : flexibleVersion header with
  | true =>
    rw [hflex] at h
    rcases h with hnull | ⟨n, u, v, hlen, hblk, rfl⟩
    · exact reads_bind_pure (reads_varint hnull) (reads_pure ())
    · exact reads_bind (reads_varint hlen) (reads_len (by omega) hblk)
  | false =>
    rw [hflex] at h
    rcases h with hnull | ⟨n, u, v, hlen, hblk, rfl⟩
    · exact reads_bind_pure (reads_int32 hnull) (reads_pure ())
    · exact reads_bind (reads_int32 hlen) (reads_skip hblk)

theorem reads_producePartitions {ps : List Int}
    (h : Each (IsProducePartition header) ps w) :
    Reads (flat (parseProducePartitions header none ps.length)) w (ps.head?, true) := by
  refine flat_partitions (fun _ _ => rfl) (fun p w hp kept n t => ?_) h none
  obtain ⟨w₁, _, hindex, ⟨w₂, w₃, hrecs, htags, rfl⟩, rfl⟩ := hp
  have hread : Reads (flat (parseProducePartition header)) (w₁ ++ (w₂ ++ w₃)) (p, none) := by
    intro t
    rw [append_assoc, append_assoc, parseProducePartition, flat_attempt, reads_int32 hindex]
    simp only []
    rw [flat_attempt, reads_produceRecords hrecs]
    simp only []
    rw [flat_attempt, reads_taggedFields htags]
    rfl
  rw [parseProducePartitions, flat_bind, andThen, hread]

/-- The number of topics of a request. -/
def produceTopicsLen (header : KafkaRequestHeader) : KafkaParser Int := do
  produceRequestSkipUntilTopics header
  readArrayLength header

/-- The topics of a request, of which only so many are read. -/
def produceTopics (header : KafkaRequestHeader) (topicsLen : Int) :
    KafkaParser (List ProduceTopic) :=
  if topicsLen ≤ 0 then return []
  else
    let topicsLen := if topicsLen > maxProduceTopics then maxProduceTopics else topicsLen
    parseTopicsLoop (fun _ => parseProduceTopic header) topicsLen.toNat

theorem produceRequest_eq :
    parseProduceRequest header = produceTopicsLen header >>= fun topicsLen =>
      produceTopics header topicsLen >>= orNoTopics .noTopicsInProduce ProduceRequest.mk := by
  simp only [parseProduceRequest, produceTopicsLen, parseProduceTopics, bind_assoc]
  rfl

theorem flat_produceTopics (n : Nat) (l : List UInt8) : (flat (produceTopics header n) l).1 =
      .ok (collect (fun _ => flat (parseProduceTopic header)) (min 100 n) l) := by
  rw [produceTopics, maxProduceTopics]
  by_cases hzero : n = 0
  · subst hzero
    rfl
  -- the number is cut before the loop, and the loop counts it down
  have hcap : (if (n : Int) > 100 then 100 else (n : Int)).toNat = min 100 n := by
    split
    · omega
    · omega
  rw [if_neg (by omega)]
  simp only [hcap]
  exact flat_topicsLoop (fun _ => parseProduceTopic header) (min 100 n) l

theorem readsTopics_produce {n : Nat}
    (hskip : Reads (flat (produceRequestSkipUntilTopics header)) u ())
    (hlen : IsArrayLength (flexibleVersion header) n v) :
    ReadsTopics (parseProduceRequest header) ProduceRequest.topics
      (fun _ => parseProduceTopic header) (u ++ v) (min 100 n) := by
  have hfst : Reads (flat (produceTopicsLen header)) (u ++ v) n :=
    reads_bind hskip (reads_arrayLength hlen)
  rw [produceRequest_eq]
  exact readsTopics_orNoTopics _ .noTopicsInProduce ProduceRequest.mk ProduceRequest.topics hfst
    (flat_produceTopics n) fun _ => rfl

/-- The topics of a Produce request, the first hundred of them, each with its
first partition. -/
theorem produce_request_read {topics : List (TopicId × List Int)}
    (h : ProduceEncoding header topics w) (front : Nat) (trailing : List UInt8)
    (hr : (bufferOf chunks).newReader.skip front = some (.ok (), r))
    (hwire : chunks.flatten.drop front = w ++ trailing) :
    ∃ req r', (parseProduceRequest header).on r = some (.ok req, r') ∧
      req.topics = (topics.take 100).map fun t => ⟨t.1.name, t.1.uuid, t.2.head?⟩ := by
  obtain ⟨u, _, hid, ⟨v, w', hlen, heach, rfl⟩, rfl⟩ := h.layout
  rw [← append_assoc] at hwire
  have hskip : Reads (flat (produceRequestSkipUntilTopics header)) u () := by
    rcases hid with ⟨w₁, w₂, hnull, hblk, rfl⟩ | ⟨n, hn, w₁, w₂, hlen, hblk, rfl⟩
    · exact reads_bind (reads_nullString hnull) (reads_skip hblk)
    · exact reads_bind (reads_stringLength true hlen (.inr hn)) (reads_skip hblk)
  exact on_readsTopics heach
    (fun x w hx n t => ⟨t, reads_requestTopic reads_producePartitions hx t, fun _ => rfl⟩)
    h.someTopic hr hwire (by decide) (readsTopics_produce hskip hlen)

/-- A partition with twenty bytes of records. -/
def recordsPartition : List UInt8 := [0, 0, 0, 0] ++ ([21] ++ List.replicate 20 9 ++ oneTag)

/-- A partition with null records. -/
def nullPartition : List UInt8 := [0, 0, 0, 6] ++ ([0] ++ oneTag)

/-- Two topics, the second with two partitions. -/
def twoTopicsProduce : List UInt8 :=
  [0] ++ List.replicate 6 0 ++ ([3] ++ (uuidTopic 1 2 recordsPartition ++
    (uuidTopic 2 3 (nullPartition ++ recordsPartition) ++ [])))

theorem produce_request_read_two : ∃ req r', (parseProduceRequest ⟨.produce, 13⟩).on
      (bufferOf (inChunks (twoTopicsProduce ++ [0]))).newReader = some (.ok req, r') ∧
    req.topics = [⟨[], some (Vector.replicate 16 1), some 0⟩,
      ⟨[], some (Vector.replicate 16 2), some 6⟩] := by
  have hfst : Each (IsProducePartition ⟨.produce, 13⟩) [0] recordsPartition :=
    ⟨_, [], ⟨_, _, ⟨rfl, by decide +kernel⟩, ⟨_, _, .inr ⟨20, [21], List.replicate 20 9,
      isVarint_byte (b := 21) (by decide), rfl, rfl⟩, taggedFields_one, rfl⟩, rfl⟩, rfl,
      (append_nil _).symm⟩
  have hlast : Each (IsProducePartition ⟨.produce, 13⟩) [6, 0]
      (nullPartition ++ recordsPartition) :=
    ⟨nullPartition, _, ⟨_, _, ⟨rfl, by decide +kernel⟩, ⟨[0], _,
      .inl (isVarint_byte (b := 0) (by decide)), taggedFields_one, rfl⟩, rfl⟩, hfst, rfl⟩
  have henc : ProduceEncoding ⟨.produce, 13⟩ [(⟨[], some (Vector.replicate 16 1)⟩, [0]),
      (⟨[], some (Vector.replicate 16 2)⟩, [6, 0])] twoTopicsProduce := by
    refine ⟨rfl, by decide, cons_ne_nil _ _, _, _, .inl ⟨[0], List.replicate 6 0,
      isVarint_byte (b := 0) (by decide), rfl, rfl⟩, ⟨_, _, arrayLength_two,
        ⟨_, _, ?_, ⟨_, [], ?_, rfl, rfl⟩, rfl⟩, rfl⟩, rfl⟩
    · exact isTopicOf_uuid (by decide) rfl hfst rfl (by decide) 1
    · exact isTopicOf_uuid (by decide) rfl hlast rfl (by decide) 2
  exact produce_request_read henc 0 [0] (skip_nothing _) (drop_inChunks _)

/-! ## Metadata responses -/

theorem isFlexible_metadata (hkey : header.apiKey = .metadata) (h : 10 ≤ header.apiVersion) :
    flexibleVersion header = true := by
  rw [flexibleVersion, hkey]
  exact decide_eq_true (by omega)

section
variable (hflex : flexibleVersion header = true)

include hflex

theorem reads_metadataNodes (w : List UInt8) (h : IsNodes w) :
    Reads (flat (skipMetadataNodes header)) w () := by
  obtain ⟨n, u, v, hlen, hblk, rfl⟩ := h
  rw [← hflex] at hlen
  exact reads_bind (reads_arrayLength hlen) (reads_len (by rw [int32Len]; omega) hblk)

theorem reads_metadataPartition (w : List UInt8) (h : IsMetadataPartition w) :
    Reads (flat (skipMetadataPartition header)) w () := by
  obtain ⟨_, _, hfixed, ⟨u, v, hnodes, htag, rfl⟩, rfl⟩ := h
  rw [← hflex] at htag
  have hread : Reads (flat (forRange (skipMetadataNodes header) 3)) u () :=
    reads_forRange (reads_metadataNodes hflex) hnodes
  exact reads_bind (reads_skip hfixed) (reads_bind hread (reads_taggedFields htag))

theorem reads_metadataRest (h : IsMetadataRest w) :
    Reads (flat (skipMetadataTopicRest header)) w () := by
  obtain ⟨_, _, hinternal, ⟨_, _, ⟨n, _, _, hlen, htimes, rfl⟩,
    ⟨u, v, hops, htag, rfl⟩, rfl⟩, rfl⟩ := h
  rw [← hflex] at hlen htag
  rw [append_assoc]
  refine reads_bind (reads_skip hinternal) (reads_bind (reads_arrayLength hlen) ?_)
  exact reads_bind (reads_forRange (reads_metadataPartition hflex) htimes)
    (reads_bind (reads_skip hops) (reads_taggedFields htag))

theorem reads_broker (w : List UInt8) (h : IsBroker w) :
    Reads (flat (skipMetadataResponseBroker header)) w () := by
  obtain ⟨_, _, hnode, ⟨_, _, hhost, ⟨u, v, hrack, htag, rfl⟩, rfl⟩, rfl⟩ := h
  have hreadRack := reads_skippedString hflex hrack
  simp only [Int.natCast_zero, add_zero] at hreadRack
  rw [← hflex] at htag
  refine reads_bind (reads_skip hnode) (reads_bind_bind (reads_skippedString hflex hhost) ?_)
  exact reads_bind_bind hreadRack (reads_taggedFields htag)

theorem reads_untilTopics
    (h : Then (IsBlock 4) (Then (IsArray true IsBroker) (IsSkippedString true true 4)) w) :
    Reads (flat (metadataResponseSkipUntilTopics header)) w () := by
  obtain ⟨_, _, hthr, ⟨u, v, hbrok, hclus, rfl⟩, rfl⟩ := h
  rw [← hflex] at hbrok
  have hread : Reads (flat (skipMetadataResponseBrokers header)) u () :=
    reads_array (reads_broker hflex) hbrok
  exact reads_bind (reads_skip hthr) (reads_bind hread (reads_skippedString hflex hclus))

/-- The last topic is left where its UUID ends. -/
theorem flat_metadataTopic (x : MetadataTopic) (w : List UInt8)
    (h : IsMetadataTopicOf header x w) (n : Nat) (t : List UInt8) :
    ∃ rest, flat (parseMetadataTopic header (n == 0)) (w ++ t) = (.ok x, rest) ∧
      (n ≠ 0 → rest = t) := by
  obtain ⟨w₁, _, herror, ⟨w₂, _, hname, ⟨w₃, w₄, huuid, hrest, rfl⟩, rfl⟩, rfl⟩ := h
  rw [← hflex] at hname
  have hstr : Reads (flat (readString header (decide (header.apiVersion ≥ 12)))) w₂ x.name := by
    rcases hname with hname | ⟨hver, hnil, hnull⟩
    · exact reads_string _ hname.1 hname.2
    · rw [decide_eq_true hver, hnil]
      exact reads_bind_pure (reads_nullString hnull) (reads_pure _)
  have hread : Reads (flat (parseMetadataTopicName header)) (w₁ ++ (w₂ ++ w₃)) x :=
    reads_bind (reads_skip herror) (reads_bind hstr
      (reads_bind_pure (reads_uuid huuid) (reads_pure _)))
  have hwire : w₁ ++ (w₂ ++ (w₃ ++ w₄)) ++ t = w₁ ++ (w₂ ++ w₃) ++ (w₄ ++ t) := by
    simp only [append_assoc]
  -- the rest is skipped only to get to the next topic
  rw [hwire, parseMetadataTopic, flat_bind, andThen, hread]
  cases n with
  | zero => exact ⟨w₄ ++ t, rfl, fun hzero => absurd rfl hzero⟩
  | succ n =>
    refine ⟨t, ?_, fun _ => rfl⟩
    change flat (attempt (skipMetadataTopicRest header) >>= fun _ => pure x) _ = _
    rw [flat_attempt, reads_metadataRest hflex hrest]
    rfl

theorem readsTopics_metadata {n : Nat}
    (h : Then (IsBlock 4) (Then (IsArray true IsBroker) (IsSkippedString true true 4)) u)
    (hlen : IsArrayLength true n v) :
    ReadsTopics (parseMetadataResponse header) MetadataResponse.topics
      (fun more => parseMetadataTopic header (more == 0)) (u ++ v) n := by
  rw [← hflex] at hlen
  have hfst : Reads (flat (do
      metadataResponseSkipUntilTopics header
      readArrayLength header)) (u ++ v) n :=
    reads_bind (reads_untilTopics hflex h) (reads_arrayLength hlen)
  have hsame : parseMetadataResponse header = (do
      metadataResponseSkipUntilTopics header
      readArrayLength header) >>= fun topicsLen =>
        parseTopicsLoop (fun more => parseMetadataTopic header (more == 0)) topicsLen.toNat >>=
          orNoTopics .noTopicsInMetadata MetadataResponse.mk := by
    simp only [parseMetadataResponse, parseMetadataTopics, bind_assoc]
    rfl
  rw [hsame]
  exact readsTopics_orNoTopics _ .noTopicsInMetadata MetadataResponse.mk MetadataResponse.topics
    hfst (flat_topicsLoop (fun more => parseMetadataTopic header (more == 0)) n) fun _ => rfl

end

/-- The topics of a Metadata response. -/
theorem metadata_response_read {topics : List MetadataTopic}
    (h : MetadataEncoding header topics w) (front : Nat) (trailing : List UInt8)
    (hr : (bufferOf chunks).newReader.skip front = some (.ok (), r))
    (hwire : chunks.flatten.drop front = w ++ trailing) :
    ∃ res r', (parseMetadataResponse header).on r = some (.ok res, r') ∧ res.topics = topics := by
  obtain ⟨u, _, hhead, ⟨v, w', hlen, heach, rfl⟩, rfl⟩ := h.layout
  rw [← append_assoc] at hwire
  have hflex := isFlexible_metadata h.key h.version.1
  have hon := on_readsAllTopics heach (flat_metadataTopic hflex) h.someTopic hr hwire
    (readsTopics_metadata hflex hhead hlen)
  rwa [map_id'] at hon

/-- A broker without a rack. -/
def brokerBytes : List UInt8 :=
  [0, 0, 0, 1] ++ ([3] ++ [104, 49, 0, 0, 0, 9] ++ ([0] ++ [] ++ oneTag))

/-- A partition with one replica. -/
def metadataPartitionBytes : List UInt8 :=
  List.replicate 14 0 ++ ([2] ++ [0, 0, 0, 1] ++ ([1] ++ [] ++ ([1] ++ [] ++ [])) ++ oneTag)

def metadataRestBytes : List UInt8 :=
  [0] ++ ([2] ++ (metadataPartitionBytes ++ []) ++ ([0, 0, 0, 0] ++ oneTag))

/-- Two topics, the second without a name. -/
def twoTopicsMetadata : List UInt8 :=
  [0, 0, 0, 0] ++ ([2] ++ (brokerBytes ++ []) ++ ([0] ++ [0, 0, 0, 0])) ++ ([3] ++
    ([0, 0] ++ ([2] ++ [97] ++ (List.replicate 16 7 ++ metadataRestBytes)) ++
      ([0, 0] ++ ([0] ++ (List.replicate 16 8 ++ metadataRestBytes)) ++ [])))

theorem skippedString_null (more : List UInt8) :
    IsSkippedString true true more.length ([0] ++ more) :=
  .inl ⟨rfl, [0], more, isVarint_byte (b := 0) (by decide), rfl, rfl⟩

theorem isBroker_bytes : IsBroker brokerBytes := by
  refine ⟨_, _, show IsBlock 4 [0, 0, 0, 1] from rfl, ⟨_, _, ?_,
    ⟨_, _, skippedString_null [], taggedFields_one, rfl⟩, rfl⟩, rfl⟩
  exact .inr ⟨2, [3], [104, 49, 0, 0, 0, 9], isVarint_byte (b := 3) (by decide), rfl, rfl⟩

theorem isMetadataRest_bytes : IsMetadataRest metadataRestBytes := by
  have hnone : IsNodes ([1] ++ []) := ⟨0, [1], [], isVarint_byte (b := 1) (by decide), rfl, rfl⟩
  have hone : IsNodes ([2] ++ [0, 0, 0, 1]) :=
    ⟨1, [2], [0, 0, 0, 1], isVarint_byte (b := 2) (by decide), rfl, rfl⟩
  have hpart : IsMetadataPartition metadataPartitionBytes :=
    ⟨_, _, show IsBlock 14 (List.replicate 14 0) from rfl, ⟨_, _, ⟨_, _, hone, ⟨_, _, hnone,
      ⟨_, [], hnone, rfl, rfl⟩, rfl⟩, rfl⟩, taggedFields_one, rfl⟩, rfl⟩
  exact ⟨_, _, show IsBlock 1 [0] from rfl, ⟨_, _, ⟨1, _, _, isVarint_byte (b := 2) (by decide),
    ⟨_, [], hpart, rfl, rfl⟩, rfl⟩, ⟨_, _, show IsBlock 4 [0, 0, 0, 0] from rfl, taggedFields_one,
      rfl⟩, rfl⟩, rfl⟩

theorem metadata_response_read_two : ∃ res r', (parseMetadataResponse ⟨.metadata, 12⟩).on
      (bufferOf (inChunks (twoTopicsMetadata ++ [0]))).newReader = some (.ok res, r') ∧
    res.topics = [⟨[97], Vector.replicate 16 7⟩, ⟨[], Vector.replicate 16 8⟩] := by
  have hlen : IsVarint 2 [2] := isVarint_byte (b := 2) (by decide)
  have henc : MetadataEncoding ⟨.metadata, 12⟩
      [⟨[97], Vector.replicate 16 7⟩, ⟨[], Vector.replicate 16 8⟩] twoTopicsMetadata := by
    refine ⟨rfl, by decide, cons_ne_nil _ _, _, _,
      ⟨_, _, show IsBlock 4 [0, 0, 0, 0] from rfl, ⟨_, _, ⟨1, [2], _, hlen,
        ⟨brokerBytes, [], isBroker_bytes, rfl, rfl⟩, rfl⟩, skippedString_null [0, 0, 0, 0],
          rfl⟩, rfl⟩,
      ⟨_, _, arrayLength_two, ⟨_, _, ?_, ⟨_, [], ?_, rfl, rfl⟩, rfl⟩, rfl⟩, rfl⟩
    · exact ⟨_, _, show IsBlock 2 [0, 0] from rfl, ⟨_, _, .inl ⟨⟨by decide, by decide +kernel⟩,
        ⟨[2], [97], hlen, rfl, rfl⟩⟩, ⟨_, _, isUUID_replicate 7, isMetadataRest_bytes, rfl⟩,
          rfl⟩, rfl⟩
    · exact ⟨_, _, show IsBlock 2 [0, 0] from rfl, ⟨_, _, .inr ⟨by decide, rfl,
        isVarint_byte (b := 0) (by decide)⟩, ⟨_, _, isUUID_replicate 8, isMetadataRest_bytes,
          rfl⟩, rfl⟩, rfl⟩
  exact metadata_response_read henc 0 [0] (skip_nothing _) (drop_inChunks _)

end Obi.Refine
