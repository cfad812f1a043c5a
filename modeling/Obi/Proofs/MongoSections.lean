import Obi.Lib.Incremental
import Obi.Spec.Mongo

/-!
# The sections of an OP_MSG message

The loop of `parseSections` takes every section that is there as a whole, and
fails at anything else that is left: a document sequence that breaks off, and
the checksum, which it takes for one more section.
-/

namespace Obi.Refine
open Lib List Ref Ref.Mongo Spec.Mongo
variable {D : Type} {bson : Bson D} {c : List UInt8} {n : Nat}

/-! ## Lengths -/

theorem bigEndian_int32 (h : n < 2 ^ 32) : bigEndian (int32Bytes n).reverse = n := by
  simp only [int32Bytes, reverse_cons, reverse_nil, nil_append, cons_append,
    bigEndian, foldl_cons, foldl_nil, UInt8.toNat_ofNat']
  omega

theorem int32LE_bytes (h : n < 2 ^ 31) : int32LE (int32Bytes n) = n := by
  have hn : bigEndian (int32Bytes n).reverse = n := bigEndian_int32 (by omega)
  have hsm : ¬ 2 ^ 31 ≤ n := not_le.mpr h
  simp only [int32LE, Scalar.decode, Scalar.littleEndian, if_true, hn]
  exact if_neg fun hbig => hsm hbig.2

theorem length_sized (content : List UInt8) : (sized content).length = 4 + content.length := by
  rw [sized, length_append]
  rfl

theorem take_sized (content t : List UInt8) :
    (sized content ++ t).take int32Size = int32Bytes (4 + content.length) := rfl

theorem int32LE_sized {content : List UInt8} (h : 4 + content.length < 2 ^ 31) (t : List UInt8) :
    int32LE ((sized content ++ t).take int32Size) = (4 + content.length : Nat) := by
  rw [take_sized, int32LE_bytes h]

/-! ## One section -/

theorem parseBodySection_body (b : Body bson) (t : List UInt8) (partialCapture : Bool) :
    parseBodySection bson (sized b.elements ++ t) partialCapture =
      .ok (b.doc, (sized b.elements).length) := by
  have hpos : 0 < b.elements.length := length_pos_iff.mpr b.ended
  have hlen : (sized b.elements ++ t).length = 4 + b.elements.length + t.length := by
    rw [length_append, length_sized]
  have htake : (sized b.elements ++ t).take (4 + b.elements.length) = sized b.elements := by
    rw [← length_sized, take_left]
  rw [parseBodySection, int32LE_sized b.fits, length_sized]
  simp only [int32Size, Int.toNat_natCast, htake, b.decodes]
  rw [if_neg (by omega), if_neg (by omega), if_neg (by omega)]

theorem sectionsLoop_section (s : Section bson) (t : List UInt8) (partialCapture : Bool)
    (rounds : Nat) (sections : List (MongoSection D)) :
    sectionsLoop bson partialCapture (rounds + 1) sections (s.wire ++ t) =
      sectionsLoop bson partialCapture rounds (sections ++ [s.read]) t := by
  cases s with
  | body b =>
    change sectionsLoop bson partialCapture (rounds + 1) sections (0 :: (sized b.elements ++ t)) = _
    rw [sectionsLoop, parseBodySection_body]
    simp only [drop_left]
    rfl
  | sequence s =>
    change sectionsLoop bson partialCapture (rounds + 1) sections (1 :: (sized s.content ++ t)) = _
    have hpos : 0 < s.content.length := length_pos_iff.mpr s.named
    have hlen : (sized s.content ++ t).length = 4 + s.content.length + t.length := by
      rw [length_append, length_sized]
    have hdrop : (sized s.content ++ t).drop (4 + s.content.length) = t := by
      rw [← length_sized, drop_left]
    rw [sectionsLoop, if_neg (by decide), if_pos rfl, int32LE_sized s.fits]
    simp only [int32Size, Int.toNat_natCast, hdrop]
    rw [if_neg (by omega), if_neg (by omega)]
    rfl

theorem sectionsLoop_wire (l : List (Section bson)) (t : List UInt8) (partialCapture : Bool) :
    ∀ rounds sections, (sectionsWire l ++ t).length ≤ rounds → ∃ rounds', t.length ≤ rounds' ∧
        sectionsLoop bson partialCapture rounds sections (sectionsWire l ++ t) =
          sectionsLoop bson partialCapture rounds' (sections ++ l.map Section.read) t := by
  induction l with
  | nil =>
    intro rounds sections h
    exact ⟨rounds, h, by rw [map_nil, append_nil]; rfl⟩
  | cons s l ih =>
    intro rounds sections h
    have hwire : sectionsWire (s :: l) ++ t = s.wire ++ (sectionsWire l ++ t) := by
      rw [sectionsWire, flatMap_cons, append_assoc]
      rfl
    have hpos : 0 < s.wire.length := by cases s <;> exact Nat.succ_pos _
    rw [hwire] at h ⊢
    rw [length_append] at h
    obtain ⟨rounds, rfl⟩ : ∃ n, rounds = n + 1 := ⟨rounds - 1, by omega⟩
    obtain ⟨rounds', hrds, hloop⟩ := ih rounds (sections ++ [s.read]) (by omega)
    refine ⟨rounds', hrds, ?_⟩
    rw [sectionsLoop_section, hloop, append_assoc]
    rfl

/-! ## What is no section -/

/-- The loop fails at these bytes. -/
def Refused (bson : Bson D) (partialCapture : Bool) (t : List UInt8) : Prop :=
  ∀ rounds sections, t.length ≤ rounds →
    ∃ err, sectionsLoop bson partialCapture rounds sections t = .error err

/-- A document sequence is skipped as a whole or not at all. -/
theorem refused_sequence (s : Sequence) (hc : ProperPart c (1 :: sized s.content))
    (hne : c ≠ []) (partialCapture : Bool) : Refused bson partialCapture c := by
  intro rounds sections hrds
  rcases hc.head with rfl | ⟨c, rfl, hpart⟩
  · exact absurd rfl hne
  obtain ⟨rounds, rfl⟩ : ∃ n, rounds = n + 1 := ⟨rounds - 1, by rw [length_cons] at hrds; omega⟩
  rw [sectionsLoop, if_neg (by decide), if_pos rfl]
  split
  · exact ⟨_, rfl⟩
  · next hlong =>
    obtain ⟨t, ht⟩ := hpart.1
    have hlt : c.length < 4 + s.content.length := length_sized s.content ▸ hpart.length_lt
    have hsize : c.take int32Size = int32Bytes (4 + s.content.length) := by
      rw [← take_sized s.content [], append_nil, ← ht, take_append_of_le_length]
      exact Nat.le_of_not_lt hlong
    have hlength := int32LE_bytes s.fits
    rw [hsize]
    rw [if_pos (by omega)]
    exact ⟨_, rfl⟩

/-- The four bytes of a checksum hold no section, whatever they are. -/
theorem refused_checksum (hlen : c.length ≤ 4) (hne : c ≠ [])
    (partialCapture : Bool) : Refused bson partialCapture c := by
  intro rounds sections hrds
  obtain ⟨sectionType, c, rfl⟩ := exists_cons_of_ne_nil hne
  rw [length_cons] at hlen hrds
  obtain ⟨rounds, rfl⟩ : ∃ n, rounds = n + 1 := ⟨rounds - 1, by omega⟩
  have hsh : c.length < int32Size := by rw [int32Size]; omega
  rw [sectionsLoop, parseBodySection]
  split
  · exact ⟨_, rfl⟩
  split
  · exact ⟨_, rfl⟩
  · exact ⟨_, rfl⟩

/-! ## All sections -/

theorem sections_wire {l : List (Section bson)} (hl : l ≠ []) (partialCapture : Bool) :
    parseSections bson (sectionsWire l) partialCapture = .ok (l.map Section.read) := by
  obtain ⟨rounds, -, hloop⟩ :=
    sectionsLoop_wire l [] partialCapture (sectionsWire l).length [] (by rw [append_nil])
  have hend : sectionsLoop bson partialCapture rounds ([] ++ l.map Section.read) [] =
      .ok (l.map Section.read) := by
    cases rounds <;> rfl
  rw [append_nil, hend] at hloop
  rw [parseSections, hloop]
  have hmap : (l.map Section.read).isEmpty = false := by
    rw [isEmpty_map, isEmpty_eq_false_iff]
    exact hl
  simp [hmap]

theorem sections_refused (l : List (Section bson)) {t : List UInt8} {partialCapture : Bool}
    (ht : Refused bson partialCapture t) :
    ∃ err, parseSections bson (sectionsWire l ++ t) partialCapture = .error err := by
  obtain ⟨rounds, hrds, hloop⟩ :=
    sectionsLoop_wire l t partialCapture (sectionsWire l ++ t).length [] (le_rfl)
  obtain ⟨err, herr⟩ := ht rounds ([] ++ l.map Section.read) hrds
  exact ⟨err, by rw [parseSections, hloop, herr]⟩

/-! ## A message -/

theorem sectionsWire_append (l l' : List (Section bson)) :
    sectionsWire (l ++ l') = sectionsWire l ++ sectionsWire l' := flatMap_append

variable (m : OpMsg bson)

theorem validateFlagBits_known : validateFlagBits m.flags = .ok () := by
  have hbits : (m.flags &&& 0xFFFF) &&& ~~~allowedFlags = 0 := by
    rw [UInt32.and_assoc]
    exact m.known
  rw [validateFlagBits, if_neg (not_not_intro hbits)]

theorem flagBitsOf_message (t : List UInt8) :
    flagBitsOf (m.header ++ (int32Bytes m.flags.toNat ++ t)) = m.flags := by
  have htake : ((m.header ++ (int32Bytes m.flags.toNat ++ t)).drop msgHeaderSize).take int32Size =
      int32Bytes m.flags.toNat := by
    rw [msgHeaderSize, ← m.headerSize, drop_left]
    rfl
  rw [flagBitsOf, htake, bigEndian_int32 m.flags.toNat_lt, UInt32.ofNat_toNat]

theorem sentBy_addSection (direction : Direction D) (sections : List (MongoSection D))
    (flagBits : UInt32) (time : Int) :
    sentBy direction (addSectionToMessage direction sections flagBits time) =
      sentBefore direction ++ sections := by
  cases direction with
  | request pending => cases pending <;> rfl
  | response v => rfl

theorem due_iff (direction : Direction D) (flags : UInt32) :
    Due direction flags ↔ ∃ moreToCome, validateOpMsg direction flags = .ok moreToCome := by
  match direction with
  | .request none => exact iff_of_true trivial ⟨_, rfl⟩
  | .request (some v) =>
    by_cases hin : v.inRequest = true <;> by_cases hmore : v.flags &&& flagMoreToCome = 0 <;>
      simp [Due, validateOpMsg, hin, hmore, em]
  | .response v =>
    rw [Due, validateOpMsg]
    by_cases hmore : flags &&& flagMoreToCome = 0 <;>
      by_cases hexhaust : v.flags &&& flagExhaustAllowed = 0 <;>
        by_cases hreq : v.inRequest = true ∧ v.flags &&& flagMoreToCome ≠ 0 <;>
          simp [hmore, hexhaust, hreq]

/-- The sections of a message are those the bytes behind its flags are parsed
as. -/
theorem readsSections_message (t : List UInt8) (time : Int) (direction : Direction D)
    (partialCapture : Bool) (sections : List (MongoSection D)) :
    ReadsSections bson (m.header ++ (int32Bytes m.flags.toNat ++ t)) time direction partialCapture
        sections ↔
      Due direction m.flags ∧ parseSections bson t partialCapture = .ok sections := by
  have hlen : ¬ (m.header ++ (int32Bytes m.flags.toNat ++ t)).length <
      msgHeaderSize + int32Size := by
    rw [length_append, m.headerSize, length_append]
    exact not_lt.mpr (Nat.add_le_add_left (Nat.le_add_right ..) 16)
  have hdrop : (m.header ++ (int32Bytes m.flags.toNat ++ t)).drop
      (msgHeaderSize + int32Size) = t := by
    rw [← drop_drop, msgHeaderSize, ← m.headerSize, drop_left]
    rfl
  rw [ReadsSections, due_iff, parseOpMessage, if_neg hlen, hdrop]
  simp only [flagBitsOf_message, validateFlagBits_known]
  cases validateOpMsg direction m.flags with
  | error err => simp
  | ok moreToCome =>
    cases hprs : parseSections bson t partialCapture with
    | error err => simp
    | ok read =>
      have hsome : read.isEmpty = false := by
        rw [parseSections] at hprs
        split at hprs
        · cases hprs
        split at hprs
        · cases hprs
        · next hne =>
          cases hprs
          exact Bool.eq_false_iff.mpr hne
      simp only [hsome, Bool.false_eq_true, if_false, Except.ok.injEq, Prod.mk.injEq]
      constructor
      · rintro ⟨value, more, ⟨rfl, rfl⟩, hsent⟩
        rw [sentBy_addSection] at hsent
        exact ⟨⟨moreToCome, rfl⟩, append_cancel_left hsent⟩
      · rintro ⟨-, rfl⟩
        exact ⟨_, _, ⟨rfl, rfl⟩, sentBy_addSection ..⟩

theorem upToBody_ne_nil : m.upToBody ≠ [] :=
  append_ne_nil_of_right_ne_nil _ (cons_ne_nil _ _)

/-- What is captured of a message with its body: some of its sections, and
bytes at which the loop fails. -/
theorem captured_cases {captured : List UInt8} (hbody : m.wireUpTo m.upToBody <+: captured)
    (hcapt : captured <+: m.wire) :
    ∃ done t, m.upToBody <+: done ∧ done <+: m.sections ∧ captured = m.wireUpTo done ++ t ∧
      ∀ partialCapture, t ≠ [] → Refused bson partialCapture t := by
  obtain ⟨p, rfl⟩ := hbody
  have hp : p <+: (m.after.map (Section.sequence : _ → Section bson)).flatMap Section.wire ++
      m.checksum := by
    rw [OpMsg.wire, OpMsg.wireUpTo, OpMsg.wireUpTo, OpMsg.sections, sectionsWire_append] at hcapt
    simp only [append_assoc] at hcapt
    exact (prefix_append_right_inj _).mp ((prefix_append_right_inj _).mp
      ((prefix_append_right_inj _).mp hcapt))
  have hwire : ∀ done : List (Section bson), m.wireUpTo m.upToBody ++ sectionsWire done =
      m.wireUpTo (m.upToBody ++ done) := by
    intro done
    rw [OpMsg.wireUpTo, OpMsg.wireUpTo, sectionsWire_append]
    simp
  rcases prefix_flatMap_append hp with ⟨done, s, rest, t, haft, rfl, ht⟩ | ⟨t, rfl, ht⟩
  · refine ⟨m.upToBody ++ done, t, prefix_append .., ?_, ?_, ?_⟩
    · rw [OpMsg.sections, haft]
      exact (prefix_append_right_inj _).mpr (prefix_append ..)
    · rw [← hwire, append_assoc]
      rfl
    · intro partialCapture hne
      have hs : s ∈ m.after.map Section.sequence := haft ▸ mem_append_right _ (mem_cons_self ..)
      obtain ⟨sequence, -, rfl⟩ := mem_map.mp hs
      exact refused_sequence sequence ht hne partialCapture
  · refine ⟨m.sections, t, prefix_append .., prefix_refl _, ?_, ?_⟩
    · rw [OpMsg.sections, ← hwire, append_assoc]
      rfl
    · intro partialCapture hne
      refine refused_checksum (ht.length_le.trans ?_) hne partialCapture
      rw [m.checksumSize]
      split <;> omega

theorem readsSections_captured (done : List (Section bson)) (hdone : done ≠ []) (t : List UInt8)
    (time : Int) (direction : Direction D) (partialCapture : Bool)
    (ht : t ≠ [] → Refused bson partialCapture t) (sections : List (MongoSection D)) :
    ReadsSections bson (m.wireUpTo done ++ t) time direction partialCapture sections ↔
      Due direction m.flags ∧ t = [] ∧ sections = done.map Section.read := by
  rw [OpMsg.wireUpTo, append_assoc, append_assoc, readsSections_message]
  by_cases hnil : t = []
  · subst hnil
    rw [append_nil, sections_wire hdone, eq_comm]
    simp
  · obtain ⟨err, herr⟩ := sections_refused done (ht hnil)
    simp [herr, hnil]

/-- A message is read with just its sections if it has no checksum. Of one that
breaks off behind its body the sections before the break are read, if it breaks
off at the end of a section. -/
theorem op_msg_sections_read_iff (time : Int) (direction : Direction D) :
    (ReadsSections bson m.wire time direction false (m.sections.map Section.read) ↔
      Due direction m.flags ∧ m.flags &&& flagCheckSumPreset = 0) ∧
    ∀ captured, m.wireUpTo m.upToBody <+: captured → captured <+: m.wire →
      ((∃ sections, sections <+: m.sections.map Section.read ∧
          ReadsSections bson captured time direction true sections) ↔
        Due direction m.flags ∧ ∃ done, done <+: m.sections ∧ captured = m.wireUpTo done) := by
  constructor
  · have hsize := m.checksumSize
    have hne : m.sections ≠ [] := append_ne_nil_of_left_ne_nil (upToBody_ne_nil m) _
    have href : m.checksum ≠ [] → Refused bson false m.checksum := by
      intro hsome
      refine refused_checksum ?_ hsome false
      rw [hsize]
      split <;> omega
    rw [OpMsg.wire, readsSections_captured m m.sections hne _ time direction false href]
    have hnone : m.checksum = [] ↔ m.flags &&& flagCheckSumPreset = 0 := by
      rw [← length_eq_zero_iff, hsize]
      split
      · next hflag => exact iff_of_true rfl hflag
      · next hflag => exact iff_of_false (by omega) hflag
    rw [hnone, and_iff_left rfl]
  · intro captured hbody hcapt
    obtain ⟨done, t, hfst, hdone, rfl, ht⟩ := captured_cases m hbody hcapt
    have hne : done ≠ [] := by
      rintro rfl
      exact upToBody_ne_nil m (prefix_nil.mp hfst)
    constructor
    · rintro ⟨sections, -, hreads⟩
      obtain ⟨hdue, rfl, -⟩ :=
        (readsSections_captured m done hne t time direction true (ht true) sections).mp hreads
      exact ⟨hdue, done, hdone, append_nil _⟩
    · rintro ⟨hdue, done', hdone', hwire⟩
      have hne' : done' ≠ [] := by
        rintro rfl
        have hlen := hbody.length_le
        have hpos : 0 < (sectionsWire m.upToBody).length := by
          rw [OpMsg.upToBody, sectionsWire_append, length_append]
          exact lt_of_lt_of_le (Nat.succ_pos _) (Nat.le_add_left ..)
        rw [hwire, OpMsg.wireUpTo, OpMsg.wireUpTo] at hlen
        simp only [length_append, sectionsWire, flatMap_nil, length_nil] at hlen hpos
        omega
      refine ⟨done'.map Section.read, hdone'.map _, ?_⟩
      rw [hwire, ← append_nil (m.wireUpTo done')]
      exact (readsSections_captured m done' hne' [] time direction true (absurd rfl) _).mpr
        ⟨hdue, rfl, rfl⟩

/-- The driver of the examples: it decodes every document as its bytes. -/
def rawBson : Bson (List UInt8) := ⟨some, []⟩

/-- `ping`, an empty document here, with a checksum. -/
def pingWithChecksum : OpMsg rawBson where
  header := List.replicate 16 0
  flags := 1
  before := []
  body := ⟨[0], sized [0], by decide, by decide, rfl⟩
  after := []
  checksum := [0xDE, 0xAD, 0xBE, 0xEF]
  headerSize := rfl
  known := rfl
  checksumSize := rfl

/-- `insert` with its documents in a document sequence. -/
def insertMsg : OpMsg rawBson where
  header := List.replicate 16 0
  flags := 0
  before := []
  body := ⟨[0], sized [0], by decide, by decide, rfl⟩
  after := [⟨[100, 0, 1, 2, 3], by decide, by decide⟩]
  checksum := []
  headerSize := rfl
  known := rfl
  checksumSize := rfl

/-- A request with a checksum is refused as a whole, and so is one of which the
last byte of the documents was not captured, though its body was. -/
theorem op_msg_checksum_or_break_refused :
    parseOpMessage rawBson pingWithChecksum.wire 0 (.request none) false =
        .error .failedToParseSections ∧
      insertMsg.wireUpTo insertMsg.upToBody <+: insertMsg.wire.dropLast ∧
      parseOpMessage rawBson insertMsg.wire.dropLast 0 (.request none) true =
        .error .failedToParseSections := by
  decide +kernel

end Obi.Refine
