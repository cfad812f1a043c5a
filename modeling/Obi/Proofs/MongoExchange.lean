import Obi.Proofs.MongoSections
import Obi.Spec.MongoExchange

/-!
# MongoDB exchanges are completed once

The in-flight map is compared with the exchanges that are open: under every key
it holds what the messages of the open exchange have carried, and nothing if
none is open. A step keeps this if a response ends its exchange just when only
its header is captured, the one exit on which the entry is removed.
-/

namespace Obi.Refine
open Lib List Ref.Mongo Spec.Mongo
variable {C D : Type} {bson : Bson D} {d : Delivery C bson} {l : List (Delivery C bson)}
  {v : MongoRequestValue D}

/-! ## What is captured of a message -/

theorem parseSections_ne_nil {buf : List UInt8} {partialCapture : Bool}
    {sections : List (MongoSection D)} (h : parseSections bson buf partialCapture = .ok sections) :
    sections ≠ [] := by
  rw [parseSections] at h
  split at h
  · cases h
  split at h
  · cases h
  · next hne =>
    cases h
    exact fun hnil => hne (hnil ▸ rfl)

theorem ownBytes_headerOnly (h : d.headerOnly = true) : ownBytes d.buf = d.buf := by
  have hlen : d.buf.length = 16 := of_decide_eq_true h
  have hval := d.valid
  rw [validateMsgHeader] at hval
  split at hval
  · cases hval
  · next hsh =>
    refine if_neg fun hlt => hsh (.inl ?_)
    rw [hlen] at hlt
    exact le_of_lt hlt

theorem carried_sections (h : d.headerOnly = false) :
    msgHeaderSize + int32Size ≤ (ownBytes d.buf).length ∧ flagBitsOf (ownBytes d.buf) = d.flags ∧
      validateFlagBits d.flags = .ok () ∧
      parseSections bson ((ownBytes d.buf).drop (msgHeaderSize + int32Size))
        (decide (d.buf.length < (msgHeaderOf d.buf).messageLength)) = .ok d.sections := by
  rcases d.carried with ⟨hlen, -⟩ | hcarried
  · exact absurd hlen (of_decide_eq_false h)
  · exact hcarried

theorem carried_header (h : d.headerOnly = true) : d.sections = [] := by
  rcases d.carried with ⟨-, -, hnil⟩ | ⟨hlen, -⟩
  · exact hnil
  have hbuf : d.buf.length = msgHeaderSize := of_decide_eq_true h
  rw [ownBytes_headerOnly h, hbuf] at hlen
  exact absurd hlen (by decide)

theorem request_carried (h : d.isResponse = false) : d.headerOnly = false := by
  rcases d.carried with ⟨-, hresp, -⟩ | ⟨hlen, -⟩
  · exact absurd hresp (of_decide_eq_false h)
  rw [Bool.eq_false_iff]
  intro hhead
  have hbuf : d.buf.length = msgHeaderSize := of_decide_eq_true hhead
  rw [ownBytes_headerOnly hhead, hbuf] at hlen
  exact absurd hlen (by decide)

theorem sections_ne_nil (h : d.headerOnly = false) : d.sections ≠ [] :=
  parseSections_ne_nil (carried_sections h).2.2.2

theorem message_delivery (h : d.headerOnly = false) (time : Int)
    (direction : Direction D) :
    parseMongoMessage bson (ownBytes d.buf) (msgHeaderOf d.buf) time direction
        (decide (d.buf.length < (msgHeaderOf d.buf).messageLength)) =
      match validateOpMsg direction d.flags with
      | .error err => .error err
      | .ok moreToCome =>
        .ok (addSectionToMessage direction d.sections d.flags time, moreToCome) := by
  obtain ⟨hlen, hflags, hval, hsections⟩ := carried_sections h
  rw [parseMongoMessage, if_pos d.opCode, parseOpMessage, if_neg (not_lt.mpr hlen)]
  cases hok : validateOpMsg direction d.flags with
  | error err => simp [hflags, hval, hok]
  | ok moreToCome => simp [hflags, hval, hok, hsections, sections_ne_nil h]

/-! ## One message -/

variable [DecidableEq C] {requests : PendingMongoDBRequests C D}

/-- The message is handed to the tracker. -/
def deliver (requests : PendingMongoDBRequests C D) (d : Delivery C bson) :
    EventResult D × PendingMongoDBRequests C D :=
  processMongoEvent bson d.buf d.startTime d.endTime d.connInfo requests

theorem deliver_eq (requests : PendingMongoDBRequests C D) (d : Delivery C bson) :
    deliver requests d = match d.isResponse, requests.lookup d.key with
      | true, none => (.error .noInFlightRequestForResponse, requests)
      | true, some v =>
        if (ownBytes d.buf).length = msgHeaderSize then
          (.ok (some v, false), requests.erase d.key)
        else match parseMongoMessage bson (ownBytes d.buf) (msgHeaderOf d.buf)
            (requestTime d.isResponse d.startTime d.endTime) (.response v)
            (decide (d.buf.length < (msgHeaderOf d.buf).messageLength)) with
        | .error _ => (.error .failedToParseResponse, requests)
        | .ok (pending, more) =>
          if !more then (.ok (some pending, false), requests.insert d.key pending)
          else (.ok (none, true), requests.insert d.key pending)
      | false, pending =>
        match parseMongoMessage bson (ownBytes d.buf) (msgHeaderOf d.buf)
            (requestTime d.isResponse d.startTime d.endTime) (.request pending)
            (decide (d.buf.length < (msgHeaderOf d.buf).messageLength)) with
        | .error _ => (.error .failedToParseResponse, requests)
        | .ok (pending, _) => (.ok (none, true), requests.insert d.key pending) := by
  have hhdr : parseMongoHeader d.buf = .ok (msgHeaderOf d.buf) := by rw [parseMongoHeader, d.valid]
  rw [deliver, processMongoEvent, if_neg (not_lt.mpr d.headed)]
  simp only [hhdr, d.opCode]
  rfl

theorem deliver_headerOnly (hr : d.isResponse = true) (hv : requests.lookup d.key = some v)
    (hhead : d.headerOnly = true) :
    deliver requests d = (.ok (some v, false), requests.erase d.key) := by
  have hlen : (ownBytes d.buf).length = msgHeaderSize := by
    rw [ownBytes_headerOnly hhead]
    exact of_decide_eq_true hhead
  rw [deliver_eq, hr, hv]
  simp [hlen]

theorem deliver_response (hr : d.isResponse = true) (hv : requests.lookup d.key = some v)
    (hhead : d.headerOnly = false) (hok : validateOpMsg (.response v) d.flags = .ok true) :
    deliver requests d = (.ok (none, true),
        requests.insert d.key
          (addSectionToMessage (.response v) d.sections d.flags d.endTime)) := by
  have hlen : (ownBytes d.buf).length ≠ msgHeaderSize := by
    have hlong := (carried_sections hhead).1
    intro heq
    rw [heq] at hlong
    exact absurd hlong (by decide)
  rw [deliver_eq, hr, hv]
  simp [hlen, message_delivery hhead, hok, requestTime]

theorem deliver_request (requests : PendingMongoDBRequests C D) (hr : d.isResponse = false)
    {more : Bool}
    (hok : validateOpMsg (.request (requests.lookup d.key)) d.flags = .ok more) :
    deliver requests d = (.ok (none, true), requests.insert d.key
        (addSectionToMessage (.request (requests.lookup d.key)) d.sections d.flags
          d.startTime)) := by
  rw [deliver_eq, hr]
  simp [message_delivery (request_carried hr), hok, requestTime]

/-! ## An open exchange -/

/-- The value in flight has what the messages of the exchange carried. -/
structure Holds (l : List (Delivery C bson)) (v : MongoRequestValue D) : Prop where
  request : v.requestSections = requestSections l
  response : v.responseSections = responseSections l
  flags : ∃ e ∈ l.getLast?, v.flags = e.flags
  carried : ∀ e ∈ l, e.headerOnly = false

omit [DecidableEq C] in
theorem reqSections_concat (l : List (Delivery C bson)) (d : Delivery C bson) :
    requestSections (l ++ [d]) = requestSections l ++ if d.isResponse then [] else d.sections := by
  cases h : d.isResponse <;> simp [requestSections, h]

omit [DecidableEq C] in
theorem respSections_concat (l : List (Delivery C bson)) (d : Delivery C bson) :
    responseSections (l ++ [d]) =
      responseSections l ++ if d.isResponse then d.sections else [] := by
  cases h : d.isResponse <;> simp [responseSections, h]

omit [DecidableEq C] in
theorem Holds.noResponse (h : Holds l v) (hnil : v.responseSections = []) :
    ∀ e ∈ l, e.isResponse = false := by
  intro e he
  by_contra hresp
  rw [h.response, responseSections, flatMap_eq_nil_iff] at hnil
  have hmem : e ∈ l.filter fun e => e.isResponse := mem_filter.mpr ⟨he, eq_true_of_ne_false hresp⟩
  exact sections_ne_nil (h.carried e he) (hnil e hmem)

omit [DecidableEq C] in
theorem respSections_eq_nil (h : ∀ e ∈ l, e.isResponse = false) : responseSections l = [] := by
  have hfilter : l.filter (fun e => e.isResponse) = [] := by
    rw [filter_eq_nil_iff]
    intro e he
    rw [h e he]
    exact Bool.false_ne_true
  rw [responseSections, hfilter, flatMap_nil]

omit [DecidableEq C] in
theorem Holds.concat (h : Holds l v) (hhead : d.headerOnly = false) {v' : MongoRequestValue D}
    (hreq : v'.requestSections = v.requestSections ++ if d.isResponse then [] else d.sections)
    (hresp : v'.responseSections = v.responseSections ++ if d.isResponse then d.sections else [])
    (hflags : v'.flags = d.flags) : Holds (l ++ [d]) v' where
  request := by rw [hreq, h.request, reqSections_concat]
  response := by rw [hresp, h.response, respSections_concat]
  flags := ⟨d, by rw [getLast?_concat]; rfl, hflags⟩
  carried e he := by
    rcases mem_append.mp he with hl | hd
    · exact h.carried e hl
    · rw [mem_singleton.mp hd]
      exact hhead

omit [DecidableEq C] in
theorem holds_first (hr : d.isResponse = false) :
    Holds [d] (addSectionToMessage (.request none) d.sections d.flags d.startTime) where
  request := by
    rw [← nil_append [d], reqSections_concat, hr]
    rfl
  response := by
    rw [← nil_append [d], respSections_concat, hr]
    rfl
  flags := ⟨d, rfl, rfl⟩
  carried e he := mem_singleton.mp he ▸ request_carried hr

omit [DecidableEq C] in
/-- Another message of the request is accepted. -/
theorem validateOpMsg_request (h : Holds l v) (hr : d.isResponse = false) (hallowed : Allowed l d) :
    ∃ more, validateOpMsg (.request (some v)) d.flags = .ok more := by
  rw [Allowed, hr] at hallowed
  obtain ⟨hrequests, hmore⟩ := hallowed
  have hin : v.inRequest = true := by
    rw [MongoRequestValue.inRequest, h.response, respSections_eq_nil hrequests]
    rfl
  have hflags : v.flags &&& flagMoreToCome ≠ 0 := by
    obtain ⟨e, he, hflags⟩ := h.flags
    rw [hflags]
    exact of_decide_eq_true (hmore e he)
  rw [validateOpMsg, hin]
  exact ⟨_, by rw [if_neg (by decide), if_neg hflags]⟩

omit [DecidableEq C] in
/-- A response that announces another is accepted. -/
theorem validateOpMsg_response (h : Holds l v) (hr : d.isResponse = true) (hallowed : Allowed l d)
    (hexh : ∀ e ∈ l.getLast?, e.exhaustAllowed = true) (hmore : d.moreToCome = true) :
    validateOpMsg (.response v) d.flags = .ok true := by
  rw [Allowed, hr] at hallowed
  obtain ⟨last, hlast, hflags⟩ := h.flags
  have hallow : decide (v.flags &&& flagExhaustAllowed ≠ 0) = true := by
    rw [hflags]
    exact hexh last hlast
  have hmore' : decide (d.flags &&& flagMoreToCome ≠ 0) = true := hmore
  rw [validateOpMsg, hmore', hallow]
  refine (if_neg (by decide)).trans (if_neg ?_)
  rintro ⟨hin, hwaits⟩
  -- No response has come, so the last message is the last of the request.
  have hnone := h.noResponse (isEmpty_iff.mp hin)
  have hfilter : l.filter (fun e => !e.isResponse) = l := by
    rw [filter_eq_self]
    intro e he
    rw [hnone e he]
    rfl
  rw [hfilter] at hallowed
  rw [hflags] at hwaits
  exact of_decide_eq_false (hallowed last hlast).1 hwaits

/-! ## The whole map -/

/-- The map holds the open exchanges and nothing else. -/
def TracksOpen (o : Exchanges C bson) (requests : PendingMongoDBRequests C D) : Prop :=
  ∀ k, (o k = [] ∧ requests.lookup k = none) ∨
    ∃ v, o k ≠ [] ∧ requests.lookup k = some v ∧ Holds (o k) v

theorem tracksOpen_update {o : Exchanges C bson} (h : TracksOpen o requests)
    {requests' : PendingMongoDBRequests C D} {k : MongoRequestKey C}
    (hoth : ∀ j, j ≠ k → requests'.lookup j = requests.lookup j)
    (hk : (l = [] ∧ requests'.lookup k = none) ∨
      ∃ v, l ≠ [] ∧ requests'.lookup k = some v ∧ Holds l v) :
    TracksOpen (Function.update o k l) requests' := by
  intro j
  by_cases hj : j = k
  · subst hj
    rw [Function.update_self]
    exact hk
  · rw [Function.update_of_ne hj, hoth j hj]
    exact h j

section
variable {o : Exchanges C bson}

section
variable (h : TracksOpen o requests)
include h

theorem tracksOpen_insert (hne : l ≠ []) (hv : Holds l v) (k : MongoRequestKey C) :
    TracksOpen (Function.update o k l) (requests.insert k v) :=
  tracksOpen_update h (fun _ hj => AList.lookup_insert_ne hj)
    (.inr ⟨v, hne, AList.lookup_insert _, hv⟩)

section
variable (hallowed : Allowed (o d.key) d)
include hallowed

theorem step_request (hr : d.isResponse = false) :
    HandledOnce (o d.key) d (deliver requests d).1 ((deliver requests d).2.lookup d.key) ∧
      TracksOpen (openStep o d) (deliver requests d).2 := by
  have hne : o d.key ++ [d] ≠ [] := append_ne_nil_of_right_ne_nil _ (cons_ne_nil _ _)
  rw [openStep, nextOpen, hr]
  rcases h d.key with ⟨hnil, hnone⟩ | ⟨v, hopen, hv, hholds⟩
  · have hok : validateOpMsg (.request (requests.lookup d.key)) d.flags = .ok true := by
      rw [hnone]
      rfl
    rw [deliver_request requests hr hok, hnone, hnil]
    refine ⟨⟨fun h => ?_, fun _ _ => ?_, fun h => ?_, fun _ => rfl⟩, ?_⟩
    · exact absurd (hr.symm.trans h) Bool.false_ne_true
    · exact ⟨_, AList.lookup_insert _, rfl, rfl⟩
    · exact absurd (hr.symm.trans h) Bool.false_ne_true
    · exact tracksOpen_insert h (cons_ne_nil _ _) (holds_first hr) d.key
  · obtain ⟨more, hok⟩ := validateOpMsg_request hholds hr hallowed
    rw [deliver_request requests hr (by rw [hv]; exact hok), hv]
    refine ⟨⟨fun h => ?_, fun _ h => absurd h hopen, fun h => ?_, fun _ => rfl⟩, ?_⟩
    · exact absurd (hr.symm.trans h) Bool.false_ne_true
    · exact absurd (hr.symm.trans h) Bool.false_ne_true
    · refine tracksOpen_insert h hne (hholds.concat (request_carried hr) ?_ ?_ rfl) d.key
      · rw [hr]
        rfl
      · rw [hr]
        exact (append_nil _).symm

theorem step_response (htrkd : Tracked (o d.key) d) (hr : d.isResponse = true) :
    HandledOnce (o d.key) d (deliver requests d).1 ((deliver requests d).2.lookup d.key) ∧
      TracksOpen (openStep o d) (deliver requests d).2 := by
  have hno : d.isResponse ≠ false := fun h => Bool.false_ne_true (h.symm.trans hr)
  rw [openStep, nextOpen, hr]
  rcases h d.key with ⟨hnil, hnone⟩ | ⟨v, hopen, hv, hholds⟩
  · rw [deliver_eq, hr, hnone, if_pos hnil]
    refine ⟨⟨fun _ hl => absurd hnil hl, fun h => absurd h hno, fun _ _ => ⟨hnone, rfl⟩,
      fun h => absurd hnil (h hr).1⟩, ?_⟩
    exact tracksOpen_update h (fun _ _ => rfl) (.inl ⟨rfl, hnone⟩)
  obtain ⟨hhead, hexh⟩ := htrkd hr hopen
  rw [if_neg hopen]
  cases hmore : d.moreToCome with
  | true =>
    rw [hmore] at hhead
    rw [deliver_response hr hv hhead
      (validateOpMsg_response hholds hr hallowed (hexh hmore) hmore)]
    refine ⟨⟨fun _ _ h => absurd (hmore.symm.trans h) (by decide), fun h => absurd h hno,
      fun _ h => absurd h hopen, fun _ => rfl⟩, ?_⟩
    refine tracksOpen_insert h (append_ne_nil_of_right_ne_nil _ (cons_ne_nil _ _))
      (hholds.concat hhead ?_ ?_ rfl) d.key
    · rw [hr]
      exact (append_nil _).symm
    · rw [hr]
      rfl
  | false =>
    rw [hmore] at hhead
    have hnone : (requests.erase d.key).lookup d.key = none := AList.lookup_erase _ _
    rw [deliver_headerOnly hr hv hhead]
    refine ⟨⟨fun _ _ _ => ⟨hnone, v, rfl, ?_, ?_⟩, fun h => absurd h hno,
      fun _ h => absurd h hopen, fun h => absurd (h hr).2 (by rw [hmore]; decide)⟩, ?_⟩
    · rw [hholds.request, reqSections_concat, hr]
      exact (append_nil _).symm
    · rw [hholds.response, respSections_concat, hr, carried_header hhead]
      exact (append_nil _).symm
    · exact tracksOpen_update h (fun _ hj => AList.lookup_erase_ne hj) (.inl ⟨rfl, hnone⟩)

/-- One message is handled as it should be, and the map follows. -/
theorem deliver_tracksOpen (htrkd : Tracked (o d.key) d) :
    HandledOnce (o d.key) d (deliver requests d).1 ((deliver requests d).2.lookup d.key) ∧
      TracksOpen (openStep o d) (deliver requests d).2 := by
  cases hr : d.isResponse with
  | true => exact step_response h hallowed htrkd hr
  | false => exact step_request h hallowed hr

end
end
end

/-! ## Runs -/

/-- The map after some messages. -/
def inFlightAfter (run : List (Delivery C bson)) : PendingMongoDBRequests C D :=
  run.foldl (fun requests d => (deliver requests d).2) ∅

theorem inFlightAfter_tracksOpen {run : List (Delivery C bson)}
    (h : Along openStep (fun o d => Allowed (o d.key) d ∧ Tracked (o d.key) d) noneOpen run) :
    TracksOpen (run.foldl openStep noneOpen) (inFlightAfter run) := by
  induction run using reverseRecOn with
  | nil => exact fun k => .inl ⟨rfl, rfl⟩
  | append_singleton run d ih =>
    obtain ⟨hrun, hd, -⟩ := along_append.mp h
    rw [inFlightAfter, foldl_concat, foldl_concat]
    exact (deliver_tracksOpen (ih hrun) hd.1 hd.2).2

/-- In a run in which the last response of every exchange is captured with its
header only, and every other one with its sections and behind a message that
carries the permission, each message is handled as it should be: an exchange is
completed by its last response, once and with all its sections, and then gone. -/
theorem exchange_completed_once (before : List (Delivery C bson)) (d : Delivery C bson)
    (h : Along openStep (fun o d => Allowed (o d.key) d ∧ Tracked (o d.key) d) noneOpen
      (before ++ [d])) :
    HandledOnce ((before.foldl openStep noneOpen) d.key) d (deliver (inFlightAfter before) d).1
      ((deliver (inFlightAfter before) d).2.lookup d.key) := by
  obtain ⟨hbef, hd, -⟩ := along_append.mp h
  exact (deliver_tracksOpen (inFlightAfter_tracksOpen hbef) hd.1 hd.2).1

/-- A whole message of request `requestID` with an empty document. -/
def emptyMessage (requestID responseTo flags : Nat) : List UInt8 :=
  int32Bytes 26 ++ int32Bytes requestID ++ int32Bytes responseTo ++ int32Bytes 2013 ++
    int32Bytes flags ++ 0 :: sized [0]

/-- A request with id 7 that allows an exhaust stream. -/
def request7 : Delivery Unit rawBson where
  buf := emptyMessage 7 0 0x10000
  startTime := 1
  endTime := 2
  connInfo := ()
  flags := 0x10000
  sections := [.body (sized [0])]
  headed := by decide
  valid := by decide
  opCode := by decide
  carried := .inr (by decide)

/-- A response to it that announces another one. -/
def response7More : Delivery Unit rawBson where
  buf := emptyMessage 8 7 2
  startTime := 1
  endTime := 2
  connInfo := ()
  flags := 2
  sections := [.body (sized [0])]
  headed := by decide
  valid := by decide
  opCode := by decide
  carried := .inr (by decide)

/-- The last response to it. -/
def response7 : Delivery Unit rawBson where
  buf := emptyMessage 9 7 0
  startTime := 1
  endTime := 2
  connInfo := ()
  flags := 0
  sections := [.body (sized [0])]
  headed := by decide
  valid := by decide
  opCode := by decide
  carried := .inr (by decide)

/-- The last response to it, with its header only. -/
def response7Header : Delivery Unit rawBson where
  buf := (emptyMessage 9 7 0).take 16
  startTime := 1
  endTime := 2
  connInfo := ()
  flags := 0
  sections := []
  headed := by decide
  valid := by decide
  opCode := by decide
  carried := .inl (by decide)

theorem exchange_completed_once_exhaust : HandledOnce [request7, response7More] response7Header
      (deliver (inFlightAfter [request7, response7More]) response7Header).1
      ((deliver (inFlightAfter [request7, response7More]) response7Header).2.lookup ⟨(), 7⟩) :=
  exchange_completed_once [request7, response7More] response7Header (by decide)

/-- The last response completes the exchange and leaves it in flight: the same
response completes it once more, and a new request under its id is refused. The
second response of an exhaust stream is refused, since the first one has put its
flags in the place of those of the request. -/
theorem completed_exchange_left_in_flight :
    (inFlightAfter [request7, response7]).lookup ⟨(), 7⟩ ≠ none ∧
      (deliver (inFlightAfter [request7, response7]) response7).1 =
        .ok (some ⟨[.body (sized [0])], [.body (sized [0]), .body (sized [0])], 1, 2, 0⟩, false) ∧
      (deliver (inFlightAfter [request7, response7]) request7).1 = .error .failedToParseResponse ∧
      (deliver (inFlightAfter [request7, response7More]) response7More).1 =
        .error .failedToParseResponse := by
  decide +kernel

end Obi.Refine
