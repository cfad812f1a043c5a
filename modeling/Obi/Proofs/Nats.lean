import Obi.Proofs.GoBytes
import Obi.Proofs.SliceReader
import Obi.Spec.Nats

/-!
# NATS captures

A control line is looked at after the line end behind it was read. If both cross
the end of a chunk, the line end was written over the first two bytes of the
line, which takes two letters from the command: what is left is no command, but
for UNSUB, which becomes SUB. Every other line is read as it was sent. The subject
of a delivered message stands behind these two bytes, so the line end of the
payload does not touch it.
-/

namespace Obi.Refine
open Lib Ref Spec List Nat Ref.Nats Spec.Nats
variable {json : NatsJson} {cr : Nat → Nat → Bool} {t : Tape}

/-! ## Commands -/

theorem command_graphic (k : Kind) : ∀ x ∈ k.command, Graphic (toLowerASCII x) := by
  apply forall_mem_of_all
  cases k <;> simp only [Kind.command] <;> decide

section
variable (f : Frame json)
include f

theorem spelled_graphic : ∀ x ∈ f.spelled, Graphic x :=
  graphic_of_equalFold f.folds (command_graphic f.kind)

theorem spelled_length : 3 ≤ f.spelled.length := by
  rw [equalFold_length f.folds]
  cases f.kind <;> simp only [Kind.command] <;> decide

theorem text_head_blank : ∀ b, f.text.head? = some b → IsBlank b := by
  obtain ⟨kind, spelled, text, folds, written, valid⟩ := f
  have hencloses : ∀ payload, Encloses text payload → ∀ b, text.head? = some b → IsBlank b := by
    rintro payload ⟨front, back, rfl, hne, -, hfrt, -⟩ b hb
    obtain ⟨x, front, rfl⟩ := exists_cons_of_ne_nil hne
    obtain rfl : x = b := Option.some.inj hb
    exact hfrt x (mem_cons_self ..)
  cases kind with
  | ok | err | ping | pong => exact written.2
  | info payload | connect payload name => exact hencloses payload written.2
  | _ => exact fun b => writes_head_blank written

theorem line_no_cr : 13 ∉ f.line := by
  rw [Frame.line, mem_append]
  rintro (hmem | hmem)
  · exact absurd (spelled_graphic f 13 hmem) (by decide)
  obtain ⟨kind, spelled, text, folds, written, valid⟩ := f
  cases kind with
  | ok | err | ping | pong | info payload | connect payload name => exact written.1 hmem
  | _ =>
    refine writes_notMem written (by decide) ?_ hmem
    rintro (h | h) <;> exact absurd h (by decide)

theorem fieldWords_line : fieldWords f.line = f.spelled :: fieldWords f.text := by
  refine fieldWords_word ?_ (solid_of_graphic (spelled_graphic f)) (text_head_blank f)
  rintro hnil
  have hlen := spelled_length f
  rw [hnil] at hlen
  exact absurd hlen (by decide)

/-- What two bytes of line end leave of a line. -/
theorem fieldWords_overwritten :
    fieldWords (crlf ++ f.line.drop 2) = f.spelled.drop 2 :: fieldWords f.text := by
  have hlen := spelled_length f
  have hdrop : f.line.drop 2 = f.spelled.drop 2 ++ f.text := drop_append_of_le_length (by omega)
  have hcr := fieldWords_space (c := [13]) (by decide) ([10] ++ f.line.drop 2)
  have hlf := fieldWords_space (c := [10]) (by decide) (f.line.drop 2)
  change fieldWords ([13] ++ ([10] ++ f.line.drop 2)) = _
  rw [hcr, hlf, hdrop]
  refine fieldWords_word ?_ (solid_of_graphic ?_) (text_head_blank f)
  · rw [ne_eq, drop_eq_nil_iff]
    omega
  · exact fun x hx => spelled_graphic f x (mem_of_mem_drop hx)

end

/-! ## Frames of a line -/

/-- The subject as `frameOf` finds it. -/
def subjectSlice (line : Slice UInt8) (b : List UInt8) : Slice UInt8 :=
  match (bytesFields b)[1]? with
  | none => .fixed []
  | some (place, w) => line.slice place (place + w.length)

/-- The choice of the frame, of a command that folds to `name`. -/
def frameNamed (json : NatsJson) (name : List UInt8) (line : Slice UInt8) (b : List UInt8)
    (fields : List (List UInt8)) : SliceParser FrameResult :=
  let is (command : String) : Bool := equalFoldASCII name (ascii command)
  if is "+OK" || is "-ERR" || is "PING" || is "PONG" then return .ok .none
  else if is "INFO" || is "CONNECT" then
    return parseNATSInfoOrConnectFrame json (fields.headD []) b
  else if is "SUB" then return parseNATSSubFrame fields
  else if is "UNSUB" then return parseNATSUnsubFrame fields
  else if is "PUB" then parseNATSPUBFrame fields
  else if is "MSG" then parseNATSMSGFrame fields (subjectSlice line b)
  else if is "HPUB" then parseNATSHPUBFrame fields
  else if is "HMSG" then parseNATSHMSGFrame fields (subjectSlice line b)
  else return .error .unsupportedNATSCommand

variable {words : List (List UInt8)} {f : Frame json} {payload spelled subject rest : List UInt8}
  {n : Nat} {operation : MessagingOperation} {s : Slice UInt8} {k : Kind}
  {b name sid size header total : List UInt8} {m pos : Nat}

theorem frameOf_eq {line : Slice UInt8} {command : List UInt8}
    (hfs : fieldWords b = command :: words) (hfold : equalFoldASCII command name = true) :
    frameOf json line b = frameNamed json name line b (command :: words) := by
  rw [fieldWords] at hfs
  rw [frameOf, frameNamed]
  simp only [hfs, ← equalFold_congr hfold]
  rfl

/-- What is to be parsed of a frame. -/
def parsed (k : Kind) : NatsFrame := match k.message with
  | some (operation, subject, payload) => ⟨some ⟨operation, subject, [], payload.length⟩, []⟩
  | none => ⟨none, k.clientID []⟩

theorem connect_clientID (payload name : List UInt8) :
    (Kind.connect payload name).clientID [] = name := by
  rw [Kind.clientID]
  split
  · next h => exact h.symm
  · rfl

/-- White space does not end behind a text in front of which a blank stands. -/
theorem not_suffix_space {u c : List UInt8} {b : UInt8} (hc : c ∈ whiteSpace)
    (hb : IsBlank b) (hne : payload ≠ []) (h : ¬ c <:+ payload) :
    ¬ c <:+ u ++ (b :: payload) := by
  have hall : ∀ c ∈ whiteSpace, 2 ≤ c.length → 32 ∉ c ∧ 9 ∉ c := by decide
  intro hsuffix
  have hpay : payload <:+ u ++ (b :: payload) := (suffix_cons b payload).trans (suffix_append u _)
  rcases lt_or_ge payload.length c.length with hlt | hle
  · have hin : b :: payload <:+ c := suffix_of_suffix_length_le (suffix_append u _) hsuffix hlt
    have hpos := length_pos_of_ne_nil hne
    obtain ⟨hspace, htab⟩ := hall c hc (by omega)
    have hmem : b ∈ c := hin.subset (mem_cons_self ..)
    rcases hb with rfl | rfl
    · exact hspace hmem
    · exact htab hmem
  · exact h (suffix_of_suffix_length_le hsuffix hpay hle)

theorem frontWidth_line (f : Frame json) (rest : List UInt8) :
    frontWidth whiteSpace (f.spelled ++ rest) = 0 := by
  have hlen := spelled_length f
  obtain ⟨x, tail, hsp⟩ := exists_cons_of_length_pos (show 0 < f.spelled.length by omega)
  have hx := spelled_graphic f x (by rw [hsp]; exact mem_cons_self ..)
  rw [hsp]
  exact (frontWidth_graphic hx _).1

/-- A line with a JSON text behind its command. -/
theorem natsJSONPayload_line (h : Encloses f.text payload) (hval : json.valid payload = true) :
    natsJSONPayload json (trimSpace f.line) f.spelled = .ok payload := by
  obtain ⟨front, back, htext, hne, hpay, hfrt, hback, hends⟩ := h
  obtain ⟨front, b, rfl⟩ : ∃ init last, front = init ++ [last] :=
    ⟨_, _, (dropLast_concat_getLast hne).symm⟩
  have hb : IsBlank b := hfrt b (mem_append_right _ (mem_singleton_self b))
  have hline : f.line = (f.spelled ++ front ++ (b :: payload)) ++ back := by
    rw [Frame.line, htext]
    simp
  have htrim : trimSpace f.line = f.spelled ++ front ++ (b :: payload) := by
    rw [hline]
    refine trimSpace_append_blanks ?_ ?_ hback
    · rw [append_assoc, append_assoc]
      exact frontWidth_line f _
    · exact fun c hc => not_suffix_space hc hb hpay (hends c hc).2
  have hdrop : (trimSpace f.line).drop f.spelled.length = (front ++ [b]) ++ payload := by
    rw [htrim, append_assoc, drop_left, append_assoc, singleton_append]
  have hrest : trimSpace ((front ++ [b]) ++ payload) = payload := by
    have hself : trimSpace (payload ++ []) = payload := trimSpace_append_blanks
      (by rw [append_nil]; exact frontWidth_eq_zero fun c hc => (hends c hc).1)
      (fun c hc => (hends c hc).2) (fun b hb => nomatch hb)
    rw [append_nil] at hself
    rw [trimSpace, (trimFront_blanks hfrt payload).1]
    exact hself
  have hlonger : f.spelled.length < (trimSpace f.line).length := by
    rw [htrim, length_append, length_append, length_cons]
    omega
  rw [natsJSONPayload, if_neg (Nat.not_le_of_lt hlonger), hdrop, hrest]
  simp [hval]

/-! ### Lines as they were sent -/

theorem sid_alnum (h : isASCIIAlnumBytes sid = true) :
    validateNATSSID sid = .ok () := by
  rw [validateNATSSID, if_pos h]

theorem intField_number {w : List UInt8} (h : IsNumber w n) :
    parseIntField w = some (n : Int) := by
  rw [parseIntField, if_neg h.1, atoi_number h]

/-- The JSON of a line whose command folds to `name`. -/
theorem infoOrConnect_line
    (hfold : equalFoldASCII f.spelled name = true) (h : Encloses f.text payload)
    (hval : json.valid payload = true) :
    parseNATSInfoOrConnectFrame json f.spelled (trimSpace f.line) =
      if equalFoldASCII name (ascii "INFO") then .ok .none
      else match json.connectName payload with
        | none => .error .invalidNATSJSONPayload
        | some name => .ok ⟨none, name⟩ := by
  cases hname : json.connectName payload with
  | none | some client =>
    simp [parseNATSInfoOrConnectFrame, natsJSONPayload_line h hval, hname,
      ← equalFold_congr hfold]

theorem subFrame_fields (queue : Option (List UInt8)) (h : isASCIIAlnumBytes sid = true) :
    parseNATSSubFrame (spelled :: subject :: (queue.toList ++ [sid])) = .ok .none := by
  cases queue <;>
    simp [parseNATSSubFrame, fromEnd, sid_alnum h]

theorem unsubFrame_fields {maxMsgs : Option (List UInt8)}
    (hsid : isASCIIAlnumBytes sid = true) (hmax : ∀ w ∈ maxMsgs, ∃ n, IsNumber w n) :
    parseNATSUnsubFrame (spelled :: sid :: maxMsgs.toList) = .ok .none := by
  cases maxMsgs with
  | none => simp [parseNATSUnsubFrame, sid_alnum hsid]
  | some w =>
    obtain ⟨n, hn⟩ := hmax w rfl
    simp [parseNATSUnsubFrame, sid_alnum hsid, intField_number hn]

section
variable (replyTo : Option (List UInt8))
include replyTo

theorem payloadFields_words (hsize : IsNumber size n) :
    parseNATSPayloadFields (spelled :: subject :: (replyTo.toList ++ [size])) =
      .ok (subject, (n : Int)) := by
  cases replyTo <;>
    simp [parseNATSPayloadFields, fromEnd, intField_number hsize]

theorem headerFields_words (hhdr : IsNumber header m) (hle : m ≤ n)
    (htotal : IsNumber total n) :
    parseNATSHeaderPayloadFields (spelled :: subject :: (replyTo.toList ++ [header, total])) =
      .ok (subject, (n : Int)) := by
  cases replyTo <;>
    simp [parseNATSHeaderPayloadFields, fromEnd, intField_number hhdr,
      intField_number htotal, not_lt.mpr hle]

theorem msgFrame_words (hsid : isASCIIAlnumBytes sid = true) (hsize : IsNumber size n)
    (s : Slice UInt8) :
    parseNATSMSGFrame (spelled :: subject :: sid :: (replyTo.toList ++ [size])) s =
      deliverFrame s n := by
  cases replyTo <;>
    simp [parseNATSMSGFrame, fromEnd, sid_alnum hsid, intField_number hsize]

theorem hmsgFrame_words (hsid : isASCIIAlnumBytes sid = true)
    (hhdr : IsNumber header m) (hle : m ≤ n) (htotal : IsNumber total n) (s : Slice UInt8) :
    parseNATSHMSGFrame (spelled :: subject :: sid :: (replyTo.toList ++ [header, total])) s =
      deliverFrame s n := by
  cases replyTo <;>
    simp [parseNATSHMSGFrame, fromEnd, sid_alnum hsid,
      intField_number hhdr, intField_number htotal, not_lt.mpr hle]

end

/-- A frame without a message. -/
theorem frameOf_quiet (f : Frame json) (line : Slice UInt8) (hquiet : f.kind.message = none) :
    frameOf json line (trimSpace f.line) = pure (.ok (parsed f.kind)) := by
  have hfs := fieldWords_trimSpace f.line
  have hfolds := f.folds
  have hwr := f.written
  have hval := f.valid
  rw [fieldWords_line] at hfs
  rw [frameOf_eq hfs hfolds]
  cases hk : f.kind with
  | ok | err | ping | pong => rfl
  | info payload =>
    rw [hk] at hfolds hwr hval
    exact congrArg pure (infoOrConnect_line hfolds hwr.2 hval)
  | connect payload name =>
    rw [hk] at hfolds hwr hval
    have hframe := infoOrConnect_line hfolds hwr.2 hval.1
    rw [hval.2] at hframe
    have hpars : parsed (.connect payload name) = ⟨none, name⟩ :=
      congrArg (NatsFrame.mk none) (connect_clientID payload name)
    rw [hpars]
    exact congrArg pure hframe
  | sub subject queue sid =>
    rw [hk] at hwr hval
    rw [fieldWords_writes hwr]
    exact congrArg pure (subFrame_fields queue hval)
  | unsub sid maxMsgs =>
    rw [hk] at hwr hval
    rw [fieldWords_writes hwr]
    exact congrArg pure (unsubFrame_fields hval.1 hval.2)
  | pub | msg | hpub | hmsg =>
    rw [hk] at hquiet
    cases hquiet

/-- What a frame with a message does behind its line. -/
def messageFrame (operation : MessagingOperation) (name : List UInt8) (subject : Slice UInt8)
    (size : Nat) : SliceParser FrameResult :=
  match operation with
  | .publish => publishFrame (.ok (name, size))
  | .process => deliverFrame subject size

theorem frameOf_message (f : Frame json) (line : Slice UInt8)
    (hmessage : f.kind.message = some (operation, subject, payload)) :
    frameOf json line (trimSpace f.line) =
      messageFrame operation subject (subjectSlice line (trimSpace f.line)) payload.length := by
  have hfs := fieldWords_trimSpace f.line
  have hfolds := f.folds
  have hwr := f.written
  have hval := f.valid
  rw [fieldWords_line] at hfs
  rw [frameOf_eq hfs hfolds]
  cases hk : f.kind with
  | pub name replyTo size payload =>
    rw [hk] at hmessage hwr hval
    obtain ⟨rfl, rfl, rfl⟩ := hmessage
    rw [fieldWords_writes hwr]
    exact congrArg publishFrame (payloadFields_words replyTo hval)
  | hpub name replyTo header total payload =>
    rw [hk] at hmessage hwr hval
    obtain ⟨rfl, rfl, rfl⟩ := hmessage
    obtain ⟨⟨m, hhdr, hle⟩, htotal⟩ := hval
    rw [fieldWords_writes hwr]
    exact congrArg publishFrame (headerFields_words replyTo hhdr hle htotal)
  | msg name sid replyTo size payload =>
    rw [hk] at hmessage hwr hval
    obtain ⟨rfl, rfl, rfl⟩ := hmessage
    rw [fieldWords_writes hwr]
    exact msgFrame_words replyTo hval.1 hval.2 _
  | hmsg name sid replyTo header total payload =>
    rw [hk] at hmessage hwr hval
    obtain ⟨rfl, rfl, rfl⟩ := hmessage
    obtain ⟨hsid, ⟨m, hhdr, hle⟩, htotal⟩ := hval
    rw [fieldWords_writes hwr]
    exact hmsgFrame_words replyTo hsid hhdr hle htotal _
  | _ =>
    rw [hk] at hmessage
    cases hmessage

/-! ### Lines without their first two bytes -/

theorem frameOf_overwritten (f : Frame json) (line : Slice UInt8) : (f.IsUnsubMax →
      frameOf json line (trimSpace (crlf ++ f.line.drop 2)) = pure (.ok (parsed f.kind))) ∧
    (¬ f.IsUnsubMax →
      ∃ err, frameOf json line (trimSpace (crlf ++ f.line.drop 2)) = pure (.error err)) := by
  have hfs := fieldWords_trimSpace (crlf ++ f.line.drop 2)
  have hfolds := equalFold_drop f.folds 2
  have hwr := f.written
  have hval := f.valid
  rw [fieldWords_overwritten] at hfs
  rw [frameOf_eq hfs hfolds, Frame.IsUnsubMax]
  cases hk : f.kind with
  | unsub sid maxMsgs =>
    rw [hk] at hwr hval
    rw [fieldWords_writes hwr]
    cases maxMsgs with
    | none =>
      refine ⟨?_, fun _ => ⟨.invalidSUBControlLine, rfl⟩⟩
      rintro ⟨sid, maxMsgs, h⟩
      cases h
    | some w =>
      refine ⟨fun _ => ?_, fun hno => absurd ⟨sid, w, rfl⟩ hno⟩
      obtain ⟨n, hn⟩ := hval.2 w rfl
      exact congrArg pure (subFrame_fields none (isAlnum_number hn))
  | _ =>
    refine ⟨?_, fun _ => ⟨.unsupportedNATSCommand, rfl⟩⟩
    rintro ⟨sid, maxMsgs, h⟩
    cases h

/-! ## Reading a frame -/

/-- What the slice of a line shows when its line end was read. -/
def shownLine (cr : Nat → Nat → Bool) (pos : Nat) (line : List UInt8) : List UInt8 :=
  if cr pos line.length = true ∧ cr (pos + line.length) 2 = true then crlf ++ line.drop 2 else line

theorem controlLine_onTape {line : List UInt8} (hcr : 13 ∉ line)
    (hlen : 2 ≤ line.length) (hrest : t.rest = line ++ (crlf ++ rest))
    (hshown : trimSpace (shownLine cr t.pos line) ≠ []) :
    ∃ (t' : Tape) (s : Slice UInt8), t'.rest = rest ∧ t'.pos = t.pos + (line.length + 2) ∧
      t'.memory.Has s ∧ Scratch.AtFront s ∧ t'.memory.load s = shownLine cr t.pos line ∧
      onTape cr readNATSControlLine t = (.ok (trimmedLine s (shownLine cr t.pos line)), t') := by
  have hlong : line.length ≤ t.rest.length := by
    rw [hrest, length_append]
    omega
  have htake : t.rest.take line.length = line := by rw [hrest, take_left]
  have hfind : t.find 13 = line.length := find_append hcr hrest
  let t1 := (t.copied cr line.length).forward line.length
  have hrest1 : t1.rest = crlf ++ rest := by
    change t.rest.drop line.length = _
    rw [hrest, drop_left]
  have hlong1 : 2 ≤ t1.rest.length := by
    rw [hrest1, length_append]
    exact Nat.le_add_right ..
  have htake1 : t1.rest.take 2 = crlf := by
    rw [hrest1]
    rfl
  have hload : (t1.copied cr 2).memory.load (t.slice cr line.length) = shownLine cr t.pos line := by
    rw [load_slice_after hlong hlong1 hlen rfl, htake, htake1]
    rfl
  refine ⟨(t1.copied cr 2).forward 2, t.slice cr line.length, ?_, ?_, ?_, slice_atFront ..,
    hload, ?_⟩
  · change t1.rest.drop 2 = rest
    rw [hrest1]
    rfl
  · change t.pos + line.length + 2 = _
    omega
  · exact has_copied (t := t1) (slice_has cr t line.length) 2
  · have hend : (t1.copied cr 2).memory.load (t1.slice cr 2) = crlf := by
      rw [load_slice_copied cr hlong1, htake1]
    have hread : onTape cr (SliceParser.readN line.length) t = (.ok (t.slice cr line.length), t1) :=
      onTape_readN (lt_of_lt_of_le Nat.zero_lt_two hlen) hlong
    have hread1 : onTape cr (SliceParser.readN 2) t1 =
        (.ok (t1.slice cr 2), (t1.copied cr 2).forward 2) := onTape_readN Nat.zero_lt_two hlong1
    have hload' : ((t1.copied cr 2).forward 2).memory.load (t.slice cr line.length) =
        shownLine cr t.pos line := hload
    have hend' : ((t1.copied cr 2).forward 2).memory.load (t1.slice cr 2) = crlf := hend
    rw [readNATSControlLine]
    simp only [onTape_bind, onTape_indexByte, hfind]
    rw [if_neg (by omega)]
    simp only [onTape_bind, hread, hread1, onTape_load, hend']
    rw [if_neg (fun h => h rfl)]
    simp only [onTape_bind, onTape_load, hload']
    rw [if_neg hshown]
    rfl

theorem load_trimmedLine {m : Scratch UInt8}
    (h : m.load s = b) : m.load (trimmedLine s b) = trimSpace b := by
  rw [trimmedLine, Scratch.load_slice, h, Nat.add_sub_cancel_left]
  exact (trimSpace_eq_slice b).symm

variable (cr) in
/-- Behind a line as it is shown its frame is parsed. -/
theorem natsFrame_line (f : Frame json) (hrest : t.rest = f.line ++ (crlf ++ rest)) :
    ∃ (t' : Tape) (s : Slice UInt8), t'.rest = rest ∧ t'.pos = t.pos + (f.line.length + 2) ∧
      t'.memory.Has s ∧ Scratch.AtFront s ∧ t'.memory.load s = shownLine cr t.pos f.line ∧
      onTape cr (parseNATSFrame json) t =
        onTape cr (frameOf json (trimmedLine s (shownLine cr t.pos f.line))
          (trimSpace (shownLine cr t.pos f.line))) t' := by
  have hsp := spelled_length f
  have hlen : 2 ≤ f.line.length := by
    rw [Frame.line, length_append]
    omega
  have hshown : trimSpace (shownLine cr t.pos f.line) ≠ [] := by
    intro hnil
    have hwords := fieldWords_trimSpace (shownLine cr t.pos f.line)
    rw [hnil, shownLine] at hwords
    split at hwords
    · rw [fieldWords_overwritten] at hwords
      cases hwords
    · rw [fieldWords_line] at hwords
      cases hwords
  obtain ⟨t', s, hrest', hpos', hhas, hfrt, hload, hread⟩ :=
    controlLine_onTape (line_no_cr f) hlen hrest hshown
  refine ⟨t', s, hrest', hpos', hhas, hfrt, hload, ?_⟩
  rw [parseNATSFrame]
  simp [hread, load_trimmedLine hload]

variable (cr) in
theorem natsPayload_onTape (hrest : t.rest = payload ++ (crlf ++ rest)) :
    onTape cr (consumeNATSPayload payload.length) t =
      (.ok (), ((t.forward payload.length).copied cr 2).forward 2) := by
  have hlong : payload.length ≤ t.rest.length := by
    rw [hrest, length_append]
    omega
  let t1 := t.forward payload.length
  have hrest1 : t1.rest = crlf ++ rest := by
    change t.rest.drop payload.length = _
    rw [hrest, drop_left]
  have hlong1 : 2 ≤ t1.rest.length := by
    rw [hrest1, length_append]
    exact Nat.le_add_right ..
  have hskip : onTape cr (SliceParser.skip payload.length) t = (.ok (), t1) := onTape_skip hlong
  have hread : onTape cr (SliceParser.readN 2) t1 =
      (.ok (t1.slice cr 2), (t1.copied cr 2).forward 2) := onTape_readN Nat.zero_lt_two hlong1
  have hend : ((t1.copied cr 2).forward 2).memory.load (t1.slice cr 2) = crlf := by
    have hload := load_slice_copied cr hlong1
    rw [hrest1] at hload
    exact hload
  rw [consumeNATSPayload, if_neg (by omega)]
  simp only [onTape_bind, hskip, hread, onTape_load, hend]
  rfl

/-- The second word of a line stands behind the command. -/
theorem second_place {first second : List UInt8} (h : fieldWords b = first :: second :: words) :
    ∃ place, (bytesFields b)[1]? = some (place, second) ∧ first.length ≤ place ∧
      (b.drop place).take second.length = second := by
  obtain ⟨⟨p, w⟩, fields, hfs, rfl, hrest⟩ := map_eq_cons_iff.mp h
  obtain ⟨⟨q, w'⟩, fields, rfl, rfl, hrest⟩ := map_eq_cons_iff.mp hrest
  have horder := fieldsLoop_pairwise 0 0 [] b (le_rfl)
  have hplace := fieldsLoop_place b 0 0 [] b rfl (zero_le _) nil_suffix (fun _ => rfl) (q, w')
    (by rw [← bytesFields, hfs]; simp)
  rw [← bytesFields, hfs] at horder
  have hle := rel_of_pairwise_cons horder (mem_cons_self ..)
  rw [hfs]
  refine ⟨q, rfl, ?_, hplace⟩
  omega

variable (cr) in
/-- The subject of a delivered message, when the line end of its payload was
read. -/
theorem load_subjectSlice (f : Frame json) (hwr : Writes f.text (subject :: words))
    (hhas : t.memory.Has s) (hfrt : Scratch.AtFront s) (hload : t.memory.load s = f.line)
    (hlong : 2 ≤ t.rest.length) :
    (t.copied cr 2).memory.load (subjectSlice (trimmedLine s f.line) (trimSpace f.line)) =
      subject := by
  have hsp := spelled_length f
  obtain ⟨place, hplace, hle, hsubj⟩ := second_place
    ((fieldWords_trimSpace _).trans ((fieldWords_line f).trans (by rw [fieldWords_writes hwr])))
  have hkept := drop_load_after cr hhas hfrt hlong
  rw [hload] at hkept
  -- from the place of the subject on, the slice shows the line
  have hbeh : ∀ front, ((t.copied cr 2).memory.load s).drop (front + place) =
      f.line.drop (front + place) := by
    intro front
    obtain ⟨k, hk⟩ := Nat.exists_eq_add_of_le (show 2 ≤ front + place by omega)
    rw [hk, ← drop_drop, ← drop_drop, hkept]
  rw [trimSpace_eq_slice f.line, drop_take, drop_drop] at hsubj
  rw [subjectSlice, hplace, trimmedLine]
  simp only [Scratch.load_slice, Nat.add_sub_cancel_left]
  rw [drop_take, drop_drop, hbeh]
  exact hsubj

/-- A message behind its line. -/
theorem messageFrame_onTape (f : Frame json)
    (hmessage : f.kind.message = some (operation, subject, payload))
    (hrest : t.rest = payload ++ (crlf ++ rest)) (hhas : t.memory.Has s)
    (hfrt : Scratch.AtFront s) (hload : t.memory.load s = f.line) :
    (onTape cr (messageFrame operation subject
      (subjectSlice (trimmedLine s f.line) (trimSpace f.line)) payload.length) t).1 =
      .ok ⟨some ⟨operation, subject, [], payload.length⟩, []⟩ := by
  have hconsume := natsPayload_onTape cr hrest
  cases operation with
  | publish =>
    rw [messageFrame, publishFrame]
    simp [hconsume]
  | process =>
    obtain ⟨words, hwr⟩ : ∃ words, Writes f.text (subject :: words) := by
      have hwr := f.written
      cases hk : f.kind with
      | msg name sid replyTo size payload | hmsg name sid replyTo header total payload =>
        rw [hk] at hmessage hwr
        obtain ⟨-, rfl, -⟩ := hmessage
        exact ⟨_, hwr⟩
      | _ =>
        rw [hk] at hmessage
        cases hmessage
    have hlong : 2 ≤ (t.forward payload.length).rest.length := by
      change 2 ≤ (t.rest.drop payload.length).length
      rw [hrest, drop_left, length_append]
      exact Nat.le_add_right ..
    have hsubj := load_subjectSlice cr (t := t.forward payload.length) f hwr hhas hfrt hload hlong
    rw [messageFrame, deliverFrame]
    simp only [onTape_bind, hconsume, onTape_load, onTape_pure]
    rw [Tape.forward, hsubj]

/-! ## Captures -/

theorem wire_quiet (h : f.kind.message = none) : f.wire = f.line ++ (crlf ++ []) := by
  rw [Frame.wire, h]

theorem parsed_message (h : k.message = some (operation, subject, payload)) :
    parsed k = ⟨some ⟨operation, subject, [], payload.length⟩, []⟩ := by
  rw [parsed, h]

theorem shownLine_overwritten (h : f.Overwritten cr pos) :
    shownLine cr pos f.line = crlf ++ f.line.drop 2 := if_pos h

theorem shownLine_of_not (h : ¬ f.Overwritten cr pos) : shownLine cr pos f.line = f.line := if_neg h

/-- A frame without a message is parsed as it was sent unless its line lost its
first two bytes; UNSUB with a number of messages may lose them. -/
theorem natsFrame_quiet (f : Frame json) (hquiet : f.kind.message = none)
    (hrest : t.rest = f.wire ++ rest) (hkept : f.Overwritten cr t.pos → f.IsUnsubMax) :
    ∃ t', onTape cr (parseNATSFrame json) t = (.ok (parsed f.kind), t') ∧ t'.rest = rest ∧
      t'.pos = t.pos + f.wire.length := by
  have hlen : f.wire.length = f.line.length + 2 := by
    rw [wire_quiet hquiet, length_append]
    rfl
  rw [wire_quiet hquiet, append_assoc] at hrest
  obtain ⟨t', s, hrest', hpos', -, -, -, hframe⟩ := natsFrame_line cr f hrest
  refine ⟨t', ?_, hrest', by rw [hpos', hlen]⟩
  by_cases hover : f.Overwritten cr t.pos
  · rw [hframe, shownLine_overwritten hover, (frameOf_overwritten f _).1 (hkept hover)]
    rfl
  · rw [hframe, shownLine_of_not hover, frameOf_quiet f _ hquiet]
    rfl

theorem natsFrame_message (f : Frame json)
    (hmessage : f.kind.message = some (operation, subject, payload))
    (hrest : t.rest = f.wire ++ rest) (hkept : ¬ f.Overwritten cr t.pos) :
    ∃ t', onTape cr (parseNATSFrame json) t = (.ok (parsed f.kind), t') := by
  rw [Frame.wire, hmessage, append_assoc, append_assoc, append_assoc] at hrest
  obtain ⟨t', s, hrest', -, hhas, hfrt, hload, hframe⟩ := natsFrame_line cr f hrest
  rw [shownLine_of_not hkept] at hload hframe
  rw [hframe, frameOf_message f _ hmessage, parsed_message hmessage]
  exact ⟨_, Prod.ext (messageFrame_onTape f hmessage hrest' hhas hfrt hload) rfl⟩

theorem natsFrame_error (f : Frame json) (hrest : t.rest = f.wire ++ rest)
    (hover : f.Overwritten cr t.pos) (hno : ¬ f.IsUnsubMax) :
    ∃ err t', onTape cr (parseNATSFrame json) t = (.error err, t') := by
  rw [Frame.wire, append_assoc] at hrest
  obtain ⟨t', s, -, -, -, -, -, hframe⟩ := natsFrame_line cr f hrest
  obtain ⟨err, herr⟩ := (frameOf_overwritten f (trimmedLine s (shownLine cr t.pos f.line))).2 hno
  rw [shownLine_overwritten hover] at herr hframe
  rw [hframe, herr]
  exact ⟨err, t', rfl⟩

theorem wire_length_pos (f : Frame json) : 0 < f.wire.length := by
  rw [Frame.wire, length_append, length_append]
  exact lt_of_lt_of_le (by decide : 0 < crlf.length) (by omega)

theorem report_error (name : List UInt8) (frames : List (Frame json)) :
    (report name frames).2.2 = none := by
  induction frames generalizing name with
  | nil => rfl
  | cons f frames ih =>
    rw [report]
    split
    · rfl
    · exact ih _

theorem parsed_clientID (h : k.message = none) (name : List UInt8) :
    (if (parsed k).clientID ≠ [] then (parsed k).clientID else name) = k.clientID name := by
  rw [parsed, h]
  cases k with
  | connect payload client =>
    simp only [connect_clientID]
    rw [Kind.clientID, ite_not]
  | _ => rfl

/-- What the loop does with the next frame. -/
theorem natsFramesLoop_step (rounds : Nat) (name : List UInt8) (hpos : 0 < t.rest.length) :
    onTape cr (natsFramesLoop json (rounds + 1) name) t =
      match onTape cr (parseNATSFrame json) t with
      | (.error err, t') => ((none, true, some err), t')
      | (.ok frame, t') =>
        let clientID := if frame.clientID ≠ [] then frame.clientID else name
        match frame.info with
        | none => onTape cr (natsFramesLoop json rounds clientID) t'
        | some info => ((some { info with clientID := clientID }, false, none), t') := by
  rw [natsFramesLoop, onTape_bind, onTape_remaining]
  rw [if_pos (Int.natCast_pos.mpr hpos), onTape_bind]
  obtain ⟨result, t'⟩ := onTape cr (parseNATSFrame json) t
  cases result with
  | error err => rfl
  | ok frame =>
    cases hinfo : frame.info with
    | none => simp [hinfo]
    | some info => simp only [hinfo]; rfl

/-- The loop reports what is to be reported if no line lost its first bytes,
and only then. -/
theorem natsFramesLoop_onTape (frames : List (Frame json)) (rounds : Nat) (name : List UInt8)
    (t : Tape)
    (hrest : t.rest = framesWire frames) (hrds : t.rest.length ≤ rounds) :
    (onTape cr (natsFramesLoop json rounds name) t).1 = report name frames ↔
      LinesKept cr t.pos frames := by
  induction frames generalizing rounds name t with
  | nil =>
    refine iff_of_true ?_ trivial
    cases rounds with
    | zero => rfl
    | succ rounds =>
      rw [natsFramesLoop, onTape_bind, onTape_remaining, hrest]
      rfl
  | cons f frames ih =>
    rw [framesWire, flatMap_cons] at hrest
    have hwire := wire_length_pos f
    have hlen := congrArg length hrest
    rw [length_append] at hlen
    obtain ⟨rounds, rfl⟩ := Nat.exists_eq_add_of_lt (show 0 < rounds by omega)
    rw [zero_add, natsFramesLoop_step rounds name (by omega), LinesKept]
    by_cases hkept : f.Overwritten cr t.pos → f.IsUnsubMax
    · rw [and_iff_right hkept]
      cases hmessage : f.kind.message with
      | none =>
        obtain ⟨t', hframe, hrest', hpos'⟩ := natsFrame_quiet f hmessage hrest hkept
        have hinfo : (parsed f.kind).info = none := by rw [parsed, hmessage]
        have hrds' : t'.rest.length ≤ rounds := by
          rw [hrest']
          omega
        simp only [hframe, hinfo, parsed_clientID hmessage, forall_const]
        rw [report, hmessage, ← hpos']
        exact ih rounds _ t' hrest' hrds'
      | some message =>
        have hnot : ¬ f.Overwritten cr t.pos := by
          intro hover
          obtain ⟨sid, maxMsgs, hk⟩ := hkept hover
          rw [hk] at hmessage
          cases hmessage
        obtain ⟨t', hframe⟩ := natsFrame_message f hmessage hrest hnot
        refine iff_of_true ?_ fun h => nomatch h
        rw [hframe, parsed_message hmessage, report, hmessage]
        rfl
    · obtain ⟨hover, hno⟩ := Classical.not_imp.mp hkept
      obtain ⟨err, t', hframe⟩ := natsFrame_error f hrest hover hno
      refine iff_of_false (fun hreport => ?_) fun h => hkept h.1
      have hnone := report_error name (f :: frames)
      rw [← hreport, hframe] at hnone
      cases hnone

theorem first_isCmdByte (f : Frame json) (rest : List UInt8) :
    ∃ b, (f.wire ++ rest).head? = some b ∧ isNATSCmdFirstByte b = true := by
  have hlower : ∀ b d : UInt8, toLowerASCII b = d → b = d ∨ (97 ≤ d ∧ b = d - 32) := by
    rintro b d rfl
    rw [toLowerASCII]
    split
    · next hlet =>
      refine .inr ⟨?_, (UInt8.add_sub_cancel b 32).symm⟩
      rw [UInt8.le_iff_toNat_le] at hlet ⊢
      rw [UInt8.toNat_add, mod_eq_of_lt]
      · exact Nat.add_le_add_right hlet.1 32
      · exact lt_of_le_of_lt (Nat.add_le_add_right hlet.2 32) (by decide)
    · exact .inl rfl
  have hfst : ∀ k : Kind, ∃ c rest, k.command = c :: rest ∧
      isNATSCmdFirstByte (toLowerASCII c) = true ∧
      (97 ≤ toLowerASCII c → isNATSCmdFirstByte (toLowerASCII c - 32) = true) := by
    intro k
    cases k <;> exact ⟨_, _, rfl, by decide, by decide⟩
  obtain ⟨c, tail, hcommand, hsame, hupper⟩ := hfst f.kind
  have hlen := spelled_length f
  obtain ⟨b, tail', hsp⟩ := exists_cons_of_length_pos (show 0 < f.spelled.length by omega)
  have hfolds := of_decide_eq_true f.folds
  rw [hsp, hcommand, map_cons, map_cons, cons.injEq] at hfolds
  refine ⟨b, ?_, ?_⟩
  · rw [Frame.wire, Frame.line, hsp]
    rfl
  rcases hlower b _ hfolds.1 with h | ⟨hle, h⟩
  · rw [h]
    exact hsame
  · rw [h]
    exact hupper hle

/-- A capture of frames is reported as it was sent if no control line up to that
of the first message lost its first two bytes, and only then; UNSUB with a number
of messages may lose them. -/
theorem capture_reported_iff (json : NatsJson) (f : Frame json) (frames : List (Frame json))
    (chunks : List (List UInt8)) (hwire : chunks.flatten = framesWire (f :: frames)) :
    processNATSEvent json (bufferOf chunks) = some (report [] (f :: frames)) ↔
      LinesKept (crosses chunks) 0 (f :: frames) := by
  have hcons : framesWire (f :: frames) = f.wire ++ framesWire frames := rfl
  obtain ⟨b, hb, hfst⟩ := first_isCmdByte f (framesWire frames)
  rw [← hcons, ← hwire] at hb
  have hpos : (bufferOf chunks).total ≠ 0 := by
    have hlen := wire_length_pos f
    rw [total_bufferOf, hwire, hcons, length_append]
    omega
  rw [processNATSEvent, if_neg hpos, u8At_zero hb]
  simp only [hfst, Bool.not_true, Bool.false_eq_true, if_false]
  rw [onReader_eq_onTape, Option.some.injEq]
  exact natsFramesLoop_onTape (f :: frames) _ [] ⟨0, chunks.flatten, Scratch.none⟩ hwire
    (le_of_eq (total_bufferOf chunks).symm)

/-- A decoder that takes every text for JSON. -/
def laxJson : NatsJson := ⟨fun _ => true, fun _ => some []⟩

/-- `PUB foo 3`, with the payload `abc`. -/
def pubFoo : Frame laxJson where
  kind := .pub (ascii "foo") none (ascii "3") (ascii "abc")
  spelled := ascii "PUB"
  text := ascii " foo 3"
  folds := by decide
  written := by
    have hend : Writes [] [] := .blanks (forall_mem_nil _)
    have hsize : Writes ([32] ++ (ascii "3" ++ [])) [ascii "3"] :=
      .word (by decide) (forall_mem_singleton.mpr (by decide)) (by decide)
        (solid_of_graphic (forall_mem_of_all (by decide))) hend
    have hall : Writes ([32] ++ (ascii "foo" ++ ([32] ++ (ascii "3" ++ []))))
        [ascii "foo", ascii "3"] :=
      .word (by decide) (forall_mem_singleton.mpr (by decide)) (by decide)
        (solid_of_graphic (forall_mem_of_all (by decide))) hsize
    exact hall
  valid := ⟨by decide, forall_mem_of_all (by decide), by decide, by decide⟩

/-- The line crosses the end of the first chunk and the payload that of the second. -/
def pubChunks : List (List UInt8) := [ascii "PU", ascii "B foo 3\r\na", ascii "bc\r\n"]

theorem capture_reported_iff_whole : LinesKept (crosses pubChunks) 0 [pubFoo] ∧
    processNATSEvent laxJson (bufferOf pubChunks) = some (report [] [pubFoo]) := by
  have hkept : LinesKept (crosses pubChunks) 0 [pubFoo] :=
    ⟨fun h => absurd h.2 (by decide +kernel), fun _ => trivial⟩
  exact ⟨hkept, (capture_reported_iff laxJson pubFoo [] pubChunks (by decide)).mpr hkept⟩

/-- The line crosses the end of the first chunk and its line end that of the
second: the command that is left is `B`. -/
theorem published_message_lost :
    [ascii "PU", ascii "B foo 3\r", ascii "\nabc\r\n"].flatten = framesWire [pubFoo] ∧
      report [] [pubFoo] = (some ⟨.publish, ascii "foo", [], 3⟩, false, none) ∧
      processNATSEvent laxJson (bufferOf [ascii "PU", ascii "B foo 3\r", ascii "\nabc\r\n"]) =
        some (none, true, some .unsupportedNATSCommand) := by
  refine ⟨by decide, rfl, by decide +kernel⟩

end Obi.Refine
