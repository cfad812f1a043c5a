import Obi.Ref.KafkaParser

/-!
# Kafka messages on the wire

What a Fetch request, a Produce request and a Metadata response look like in the
versions that are parsed, up to the end of their topics, and what they say. What
comes after the topics is not looked at and may be anything.

A flexible version writes lengths as varints, one more than the length; the
others write them as fixed-width numbers. A varint need not be the shortest one.
-/

namespace Obi.Spec
open Lib Ref

/-! ## Versions and characters -/

/-- The first flexible version; `none` where all are. -/
def firstFlexible : KafkaAPIKey → Option Int
  | .produce | .metadata => some 9
  | .fetch => some 12
  | .offsetCommit => some 8
  | .offsetFetch | .joinGroup => some 6
  | .heartbeat | .leaveGroup | .syncGroup => some 4
  | .consumerGroupHeartbeat => none

def flexibleVersion (header : KafkaRequestHeader) : Bool :=
  (firstFlexible header.apiKey).all fun first => decide (first ≤ header.apiVersion)

/-- The characters of topic names. -/
def topicCharacters : List Char :=
  "ABCDEFGHIJKLMNOPQRSTUVWXYZabcdefghijklmnopqrstuvwxyz0123456789._-".toList

def LegalBytes (name : List UInt8) : Prop := ∀ b ∈ name, Char.ofNat b.toNat ∈ topicCharacters

instance (name : List UInt8) : Decidable (LegalBytes name) :=
  inferInstanceAs (Decidable (∀ b ∈ name, _))

/-! ## A reader of a byte string -/

def flatAnswer : (call : ReadCall) → List UInt8 → call.Answer × List UInt8
  | .remaining, l => (l.length, l)
  | .readN n, l =>
    if 0 ≤ n ∧ n ≤ l.length then (.ok (l.take n.toNat), l.drop n.toNat)
    else (.error (.requested .readN n l.length), l)
  | .skip n, l =>
    if 0 ≤ n ∧ n ≤ l.length then (.ok (), l.drop n.toNat)
    else (.error (.requested .skip n l.length), l)

/-- The parser on a byte string, and what it leaves of it. -/
def flat {α : Type} (p : KafkaParser α) : Take UInt8 KafkaError α :=
  fun l => Script.eval flatAnswer (ExceptT.run p) l

/-! ## Fields -/

/-- What the bytes of a part of a message look like. -/
abbrev Layout := List UInt8 → Prop

/-- An unsigned varint: seven bits a byte, the lowest first, and a bit that says
whether another byte follows. -/
structure UVarint where
  front : List UInt8
  last : UInt8
  continued : ∀ b ∈ front, 128 ≤ b
  ended : last < 128
  short : front.length ≤ 4

def UVarint.wire (v : UVarint) : List UInt8 := v.front ++ [v.last]

def UVarint.value (v : UVarint) : Nat :=
  v.front.foldr (fun b n => b.toNat % 128 + 128 * n) v.last.toNat

def IsVarint (n : Nat) : Layout := fun w => ∃ v : UVarint, v.value = n ∧ w = v.wire

def IsBlock (n : Nat) : Layout := fun w => w.length = n

/-- A number of fixed width. -/
def IsScalar (k : Scalar) (n : Int) : Layout := fun w => w.length = k.width ∧ k.decode w = n

/-- One part after another. -/
def Then (P Q : Layout) : Layout := fun w => ∃ u v, P u ∧ Q v ∧ w = u ++ v

def Nothing : Layout := fun w => w = []

/-- As many as the number says. -/
def Times (P : Layout) : Nat → Layout
  | 0 => Nothing
  | n + 1 => Then P (Times P n)

/-- The items of a list, one after the other. -/
def Each {ι : Type} (P : ι → Layout) : List ι → Layout
  | [] => Nothing
  | x :: xs => Then (P x) (Each P xs)

variable (flexible : Bool)

def IsArrayLength (n : Nat) : Layout :=
  if flexible then IsVarint (n + 1) else IsScalar .i32be n

/-- An array whose entries are skipped. -/
def IsArray (P : Layout) : Layout := fun w => ∃ n, Then (IsArrayLength flexible n) (Times P n) w

def IsArrayOf {ι : Type} (P : ι → Layout) (xs : List ι) : Layout :=
  Then (IsArrayLength flexible xs.length) (Each P xs)

/-- The length of a string that is not null. -/
def IsStringLength (n : Nat) : Layout :=
  if flexible then IsVarint (n + 1) else IsScalar .i16be n

def IsNullString : Layout := if flexible then IsVarint 0 else IsScalar .i16be (-1)

/-- A string that may be null, and `more` bytes behind it, which the parsers skip
at once. -/
def IsSkippedString (nullable : Bool) (more : Nat) : Layout := fun w =>
  (nullable = true ∧ Then (IsNullString flexible) (IsBlock more) w) ∨
    ∃ n, Then (IsStringLength flexible n) (IsBlock (n + more)) w

def IsTaggedField : Layout := fun w =>
  ∃ tag n, Then (IsVarint tag) (Then (IsVarint n) (IsBlock n)) w

def IsTaggedFields : Layout := fun w =>
  if flexible then ∃ n, Then (IsVarint n) (Times IsTaggedField n) w else w = []

/-! ## Topics -/

/-- What a topic is known by. -/
structure TopicId where
  name : List UInt8
  uuid : Option UUID

/-- A name of a topic: not empty, of the characters Kafka allows. -/
def TopicName (name : List UInt8) : Prop := name ≠ [] ∧ LegalBytes name

def IsName (name : List UInt8) : Layout :=
  Then (IsStringLength flexible name.length) fun w => w = name

def IsUUID (uuid : UUID) : Layout := fun w => w = uuid.toList

variable (header : KafkaRequestHeader)

/-- By name, or since version 13 by UUID. -/
def IsRequestTopic (id : TopicId) : Layout := fun w =>
  if header.apiVersion ≥ 13 then
    ∃ uuid, id = ⟨[], some uuid⟩ ∧ IsUUID uuid w
  else TopicName id.name ∧ id.uuid = none ∧ IsName (flexibleVersion header) id.name w

/-- A topic of a request and its partitions. -/
def IsTopicOf {π : Type} (P : π → Layout) (t : TopicId × List π) : Layout :=
  Then (IsRequestTopic header t.1)
    (Then (IsArrayOf (flexibleVersion header) P t.2) (IsTaggedFields (flexibleVersion header)))

/-! ## Fetch -/

def fetchPartitionRest : Nat :=
  if header.apiVersion ≥ 12 then 4 + 8 + 4 else if header.apiVersion ≥ 5 then 8 + 4 else 4

/-- The partition, the epoch of its leader, the offset, and what else there is. -/
def IsFetchPartition (p : FetchPartition) : Layout :=
  Then (IsScalar .i32be p.partition) (Then (if header.apiVersion ≥ 9 then IsBlock 4 else Nothing)
    (Then (IsScalar .i64be p.fetchOffset) (Then (IsBlock (fetchPartitionRest header))
      (IsTaggedFields (flexibleVersion header)))))

def fetchHeadLen : Nat :=
  if header.apiVersion ≥ 15 then 4 + 4 + 4 + 1 + 4 + 4
  else if header.apiVersion ≥ 7 then 4 + 4 + 4 + 4 + 1 + 4 + 4
  else 4 + 4 + 4 + 4 + 1

structure FetchEncoding (header : KafkaRequestHeader)
    (topics : List (TopicId × List FetchPartition)) (w : List UInt8) : Prop where
  key : header.apiKey = .fetch
  version : 4 ≤ header.apiVersion ∧ header.apiVersion ≤ 17
  someTopic : topics ≠ []
  layout : Then (IsBlock (fetchHeadLen header))
    (IsArrayOf (flexibleVersion header) (IsTopicOf header (IsFetchPartition header)) topics) w

/-! ## Produce -/

/-- The records of a partition, or null. -/
def IsRecords : Layout := fun w =>
  if flexible then
    IsVarint 0 w ∨ ∃ n, Then (IsVarint (n + 1)) (IsBlock n) w
  else IsScalar .i32be (-1) w ∨ ∃ n : Nat, Then (IsScalar .i32be n) (IsBlock n) w

/-- A partition, by its index. -/
def IsProducePartition (index : Int) : Layout :=
  Then (IsScalar .i32be index)
    (Then (IsRecords (flexibleVersion header)) (IsTaggedFields (flexibleVersion header)))

/-- A transactional id that is null or not empty, and `more` bytes behind it. -/
def IsTransactionalId (more : Nat) : Layout := fun w =>
  Then (IsNullString flexible) (IsBlock more) w ∨
    ∃ n, n ≠ 0 ∧ Then (IsStringLength flexible n) (IsBlock (n + more)) w

/-- The transactional id, the number of acknowledgements, the timeout, the topics. -/
structure ProduceEncoding (header : KafkaRequestHeader) (topics : List (TopicId × List Int))
    (w : List UInt8) : Prop where
  key : header.apiKey = .produce
  version : 3 ≤ header.apiVersion ∧ header.apiVersion ≤ 13
  someTopic : topics ≠ []
  layout : Then (IsTransactionalId (flexibleVersion header) (2 + 4))
    (IsArrayOf (flexibleVersion header) (IsTopicOf header (IsProducePartition header)) topics) w

/-! ## Metadata -/

def IsBroker : Layout :=
  Then (IsBlock 4) (Then (IsSkippedString true false 4)
    (Then (IsSkippedString true true 0) (IsTaggedFields true)))

/-- An array of node ids. -/
def IsNodes : Layout := fun w => ∃ n, Then (IsArrayLength true n) (IsBlock (n * 4)) w

def IsMetadataPartition : Layout :=
  Then (IsBlock (2 + 4 * 3)) (Then (Times IsNodes 3) (IsTaggedFields true))

/-- What is behind the name and the UUID of a topic. -/
def IsMetadataRest : Layout :=
  Then (IsBlock 1) (Then (IsArray true IsMetadataPartition)
    (Then (IsBlock 4) (IsTaggedFields true)))

/-- A topic of a Metadata response. Its name may be null since version 12. -/
def IsMetadataTopicOf (t : MetadataTopic) : Layout :=
  Then (IsBlock 2) (Then (fun w =>
      (TopicName t.name ∧ IsName true t.name w) ∨
        header.apiVersion ≥ 12 ∧ t.name = [] ∧ IsNullString true w)
    (Then (IsUUID t.uuid) IsMetadataRest))

structure MetadataEncoding (header : KafkaRequestHeader) (topics : List MetadataTopic)
    (w : List UInt8) : Prop where
  key : header.apiKey = .metadata
  version : 10 ≤ header.apiVersion ∧ header.apiVersion ≤ 13
  someTopic : topics ≠ []
  layout : Then (Then (IsBlock 4) (Then (IsArray true IsBroker) (IsSkippedString true true 4)))
    (IsArrayOf true (IsMetadataTopicOf header) topics) w

end Obi.Spec
