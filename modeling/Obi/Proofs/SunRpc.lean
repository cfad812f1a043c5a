import Obi.Proofs.SliceReader
import Obi.Spec.SunRpc

/-!
# SunRPC captures

A message comes back from its bytes, its bytes from the fragments of its record
as long as none of them is written over before they are joined, and from the
messages of a capture the first CALL and the REPLY to it.
-/

namespace Obi.Refine
open Lib Ref Spec List UInt32 Nat Ref.SunRpc Spec.SunRpc
variable {cr : Nat → Nat → Bool} {t : Tape} {looks : Bool} {held : Held}
  {parts : List (Slice UInt8)} {rest fragment : List UInt8} {n : Nat} {verf : OpaqueAuth}
  {reply : ReplyInfo} {xid : UInt32}

/-! ## Words -/

theorem bigEndian_word (v : UInt32) : bigEndian (word v) = v.toNat := by
  have hlt := v.toNat_lt
  simp only [word, bigEndian, foldl_cons, foldl_nil, UInt8.toNat_ofNat']
  omega

theorem uint32At_word {b : List UInt8} {i : Nat} {v : UInt32}
    (h : b.drop i = word v ++ rest) : uint32At b i = v := by
  have htake : (word v ++ rest).take 4 = word v := rfl
  rw [uint32At, h, htake, bigEndian_word, UInt32.ofNat_toNat]

theorem uint32At_zero (v : UInt32) (rest : List UInt8) : uint32At (word v ++ rest) 0 = v :=
  uint32At_word (b := word v ++ rest) (i := 0) rfl

theorem length_word (v : UInt32) : (word v).length = 4 := rfl

theorem drop_word (v : UInt32) (rest : List UInt8) (i : Nat) :
    (word v ++ rest).drop (4 + i) = rest.drop i := by
  rw [drop_append, drop_eq_nil_of_le (by rw [length_word]; omega), nil_append,
    length_word, Nat.add_sub_cancel_left]

/-! ## Messages -/

theorem length_auth (a : OpaqueAuth) : a.bytes.length = 8 + (a.body.length + 3) / 4 * 4 := by
  simp only [OpaqueAuth.bytes, length_append, length_word, length_replicate]
  omega

theorem readOpaqueAuth_bytes (a : OpaqueAuth) (rest : List UInt8) :
    readOpaqueAuth (a.bytes ++ rest) = .ok (a.flavor, a.bytes.length) := by
  have hlen := length_auth a
  have hsh := a.short
  have hspl : a.bytes ++ rest = word a.flavor ++ (word (ofNat a.body.length) ++
      (a.body ++ replicate ((4 - a.body.length % 4) % 4) 0 ++ rest)) := by
    rw [OpaqueAuth.bytes]
    simp
  have hflavor : uint32At (a.bytes ++ rest) 0 = a.flavor := uint32At_word hspl
  have hlength : uint32At (a.bytes ++ rest) 4 = ofNat a.body.length := by
    exact uint32At_word (drop_word a.flavor _ 0)
  have hvalue : (ofNat a.body.length).toNat = a.body.length := by exact mod_eq_of_lt (by omega)
  rw [readOpaqueAuth, hflavor, hlength, hvalue, if_neg (by rw [length_append]; omega)]
  rw [if_neg (by rw [length_append]; omega), hlen]

theorem parseCall_bytes {prog vers proc : UInt32} {cred : OpaqueAuth} {args : List UInt8}
    (hkn : (RpcMessage.call xid prog vers proc cred verf args).Known)
    (hrange : (RpcMessage.call xid prog vers proc cred verf args).InRange) :
    parseCall xid (word rpcVersion ++ (word prog ++ (word vers ++ (word proc ++
      (cred.bytes ++ (verf.bytes ++ args)))))) =
      .ok (some ⟨xid, prog, vers, proc, cred.flavor⟩) := by
  obtain ⟨hprog, hcred, hverf⟩ := hkn
  obtain ⟨hvers, hproc⟩ := hrange
  have hverflen := length_auth verf
  let body := word rpcVersion ++ (word prog ++ (word vers ++ (word proc ++
      (cred.bytes ++ (verf.bytes ++ args)))))
  have hlen : body.length = 16 + (cred.bytes.length + (verf.bytes.length + args.length)) := by
    simp only [body, length_append, length_word]
    omega
  have h4 : body.drop 4 = _ := drop_word rpcVersion _ 0
  have h8 : body.drop 8 = _ := (drop_word rpcVersion _ 4).trans (drop_word prog _ 0)
  have h12 : body.drop 12 = _ :=
    (drop_word rpcVersion _ 8).trans ((drop_word prog _ 4).trans (drop_word vers _ 0))
  have h16 : body.drop 16 = cred.bytes ++ (verf.bytes ++ args) :=
    (drop_word rpcVersion _ 12).trans ((drop_word prog _ 8).trans
      ((drop_word vers _ 4).trans (drop_word proc _ 0)))
  have hbeh : body.drop (16 + cred.bytes.length) = verf.bytes ++ args := by
    rw [← drop_drop, h16, drop_left]
  have hguard : ¬ ((!validProgram prog) = true ∨ vers = 0 ∨ proc > 0xffff) := by
    rw [hprog]
    rintro (h | h | h)
    · cases h
    · exact hvers h
    · exact absurd hproc (UInt32.not_le.mpr h)
  rw [parseCall, if_neg (show ¬ body.length < 24 by omega),
    if_neg (fun h => h rfl), uint32At_word h4, uint32At_word h8, uint32At_word h12]
  rw [if_neg hguard, h16, readOpaqueAuth_bytes]
  simp only [hcred]
  rw [hbeh, readOpaqueAuth_bytes]
  simp only [hverf, Bool.not_true, Bool.false_eq_true, if_false]
  rw [if_neg (show ¬ 16 + cred.bytes.length + verf.bytes.length > body.length by omega)]

theorem parseReply_accepted {stat : Fin 6}
    {results : List UInt8} (hverf : validAuthFlavor verf.flavor = true) :
    parseReply xid (word 0 ++ (verf.bytes ++ (word (ofNat stat.val) ++ results))) =
      .ok (some ⟨xid, ofNat stat.val, false, false⟩) := by
  have hlt := stat.isLt
  let body := word 0 ++ (verf.bytes ++ (word (ofNat stat.val) ++ results))
  have hlen : body.length = 4 + (verf.bytes.length + (4 + results.length)) := by
    simp [body, length_word]
  have h4 : body.drop 4 = verf.bytes ++ (word (ofNat stat.val) ++ results) := drop_word 0 _ 0
  have hbeh : body.drop (4 + verf.bytes.length) = word (ofNat stat.val) ++ results := by
    rw [← drop_drop, h4, drop_left]
  have hstat : ¬ ofNat stat.val > 5 := by
    rw [gt_iff_lt, lt_iff_toNat_lt, toNat_ofNat', mod_eq_of_lt (by omega)]
    exact not_lt.mpr (le_of_lt_succ hlt)
  rw [parseReply, if_neg (show ¬ body.length < 4 by omega), uint32At_word rfl]
  rw [if_neg (by decide), if_neg (by decide), h4, readOpaqueAuth_bytes]
  simp only [hverf, Bool.not_true, Bool.false_eq_true, if_false]
  rw [if_neg (show ¬ body.length < 4 + verf.bytes.length + 4 by omega), uint32At_word hbeh,
    if_neg hstat]

theorem parseReply_denied (h : validateRejectedReply rest = true) :
    parseReply xid (word replyDenied ++ rest) = .ok (some ⟨xid, 0, false, true⟩) := by
  rw [parseReply]
  rw [show (word replyDenied ++ rest).drop 4 = rest from
    drop_word replyDenied rest 0, h]
  rfl

theorem rejectedReply_mismatch (low high : UInt32) :
    validateRejectedReply (word rejectRPCMismatch ++ (word low ++ word high)) = true := by
  rfl

theorem rejectedReply_auth {stat : Fin 15} (h : stat.val ≤ 13) :
    validateRejectedReply (word rejectAuthError ++ word (ofNat stat.val)) = true := by
  have hvalue : uint32At (word rejectAuthError ++ word (ofNat stat.val)) 4 = ofNat stat.val := by
    have hdrop : (word rejectAuthError ++ word (ofNat stat.val)).drop 4 =
        word (ofNat stat.val) ++ [] := by
      exact drop_word rejectAuthError _ 0
    exact uint32At_word hdrop
  have hlen : ¬ (word rejectAuthError ++ word (ofNat stat.val)).length < 4 :=
    show ¬ 8 < 4 by omega
  have hlen8 : ¬ (word rejectAuthError ++ word (ofNat stat.val)).length < 8 := lt_irrefl 8
  have hle : ofNat stat.val ≤ maxAuthStat := by
    rw [le_iff_toNat_le, toNat_ofNat', mod_eq_of_lt (by omega)]
    exact h
  rw [validateRejectedReply, if_neg hlen, hvalue, uint32At_zero]
  simp only []
  rw [if_neg (by decide), if_pos trivial, if_neg hlen8, decide_eq_true hle]

theorem rpcRecord_words (xid kind : UInt32) (body : List UInt8) :
    ¬ (word xid ++ (word kind ++ body)).length < 8 ∧
      uint32At (word xid ++ (word kind ++ body)) 0 = xid ∧
      uint32At (word xid ++ (word kind ++ body)) 4 = kind ∧
      (word xid ++ (word kind ++ body)).drop 8 = body := by
  refine ⟨?_, uint32At_zero .., uint32At_word (drop_word xid _ 0), ?_⟩
  · simp only [length_append, length_word]
    omega
  · exact (drop_word xid _ 4).trans (drop_word kind _ 0)

theorem rpcRecord_reply {body : List UInt8} (h : parseReply xid body = .ok (some reply)) :
    parseRPCRecord (word xid ++ (word msgReply ++ body)) = .ok (some (.inr reply)) := by
  obtain ⟨hlen, hxid, hkind, hbody⟩ := rpcRecord_words xid msgReply body
  rw [parseRPCRecord, hxid, hbody]
  simp only []
  rw [h]
  rfl

/-- A record with a message. -/
theorem rpcRecord_bytes {m : RpcMessage} (hkn : m.Known) (hrange : m.InRange) :
    parseRPCRecord m.bytes = .ok (some m.info) := by
  cases m with
  | call xid prog vers proc cred verf args =>
    obtain ⟨hlen, hxid, hkind, hbody⟩ := rpcRecord_words xid msgCall _
    rw [RpcMessage.bytes, parseRPCRecord, hxid, hbody]
    simp only [parseCall_bytes hkn hrange]
    rfl
  | accepted xid verf stat results => exact rpcRecord_reply (parseReply_accepted hkn)
  | denied xid why =>
    cases why with
    | rpcMismatch low high =>
      exact rpcRecord_reply (parseReply_denied (rejectedReply_mismatch low high))
    | authError stat =>
      exact rpcRecord_reply (parseReply_denied (rejectedReply_auth hrange))

/-! ## Fragments -/

/-- The slice shows these bytes, and lies in the block in use only if that is
known. -/
def Shown (m : Scratch UInt8) (exposed : Bool) (s : Slice UInt8) (f : List UInt8) : Prop :=
  m.Has s ∧ m.load s = f ∧ (m.Shares s → exposed = true)

/-- A slice shows the same after a read that spares it. -/
theorem Shown.copied {s : Slice UInt8} {f : List UInt8}
    (h : Shown t.memory held.exposed s f) (hn : n ≤ t.rest.length)
    (hcap : held.cap = t.memory.cap) (hspar : held.Spares cr t.pos n) (needed : Bool) :
    Shown (t.copied cr n).memory (held.read cr t.pos n needed).exposed s f := by
  obtain ⟨hhas, hload, hshare⟩ := h
  rw [Tape.copied, Held.read]
  by_cases hcross : cr t.pos n = true
  · have hfits : t.memory.Shares s → t.memory.cap < (t.rest.take n).length := by
      intro hs
      rw [length_take, min_eq_left hn, ← hcap]
      exact hspar hcross (hshare hs)
    rw [if_pos hcross]
    refine ⟨hhas.write _, ?_, fun hs => absurd hs (Scratch.not_shares_write hhas hfits)⟩
    rw [Scratch.load_write_of_not hhas hfits, hload]
  · rw [if_neg hcross, if_neg hcross]
    exact ⟨hhas, hload, hshare⟩

variable (cr) in
theorem shown_slice (held : Held) (hn : n ≤ t.rest.length) :
    Shown (t.copied cr n).memory (held.read cr t.pos n true).exposed (t.slice cr n)
      (t.rest.take n) := by
  refine ⟨slice_has cr t n, load_slice_copied cr hn, fun hshare => ?_⟩
  rw [Held.read]
  by_cases hcross : cr t.pos n = true
  · rw [if_pos hcross]
  · rw [Tape.slice, if_neg hcross] at hshare
    exact absurd hshare id

theorem read_cap (held : Held) (hcap : held.cap = t.memory.cap) (hn : n ≤ t.rest.length)
    (needed : Bool) : (held.read cr t.pos n needed).cap = (t.copied cr n).memory.cap := by
  rw [cap_copied hn, Held.read, grown, ← hcap]
  split <;> rfl

theorem joinParts_onTape {exposed : Bool} {frags : List (List UInt8)}
    (h : List.Forall₂ (Shown t.memory exposed) parts frags) :
    onTape cr (joinParts parts) t = (frags.flatten, t) := by
  induction h with
  | nil => rfl
  | cons hshown _ ih =>
    rw [joinParts, onTape_bind, onTape_load, hshown.2.1, onTape_bind, ih]
    rfl

/-- The word in front of a fragment. -/
theorem marker_read (last : Bool) (h : fragment.length ≤ maxRecordSize) (rest : List UInt8) :
    (marker last fragment ++ rest).take 4 = marker last fragment ∧
      (Scalar.decode .u32be (marker last fragment)).toNat % rmLastFrag = fragment.length ∧
      (rmLastFrag ≤ (Scalar.decode .u32be (marker last fragment)).toNat ↔ last = true) := by
  have hsize : maxRecordSize = 1048576 := rfl
  have hdec : (Scalar.decode .u32be (marker last fragment)).toNat =
      (if last then rmLastFrag else 0) + fragment.length := by
    have hbs : Scalar.decode .u32be (marker last fragment) =
        (bigEndian (marker last fragment) : Int) := rfl
    rw [hbs, marker, bigEndian_word]
    refine mod_eq_of_lt ?_
    rw [rmLastFrag]
    split <;> omega
  refine ⟨rfl, ?_, ?_⟩
  · rw [hdec, rmLastFrag]
    split <;> omega
  rw [hdec, rmLastFrag]
  cases last
  · simp only [Bool.false_eq_true, if_false, iff_false]
    omega
  · simp only [if_true, iff_true]
    omega

theorem recordWire_cons (fragment : List UInt8) (rest : List (List UInt8)) :
    recordWire (fragment :: rest) =
      marker (rest.isEmpty) fragment ++ (fragment ++ recordWire rest) := by
  cases rest with
  | nil => rw [recordWire, append_nil]; rfl
  | cons next rest => rfl

variable {more : List UInt8} {kept : Option ReplyInfo}

/-- One fragment: the slices that are held, and the new one, show what they
should. -/
theorem fragment_read {done : List (List UInt8)} {last : Bool}
    (hrest : t.rest = marker last fragment ++ (fragment ++ more))
    (hsize : fragment.length ≤ maxRecordSize) (hcap : held.cap = t.memory.cap)
    (hparts : List.Forall₂ (Shown t.memory held.exposed) parts done)
    (hword : held.Spares cr t.pos 4)
    (hbs : fragment ≠ [] → (held.read cr t.pos 4 false).Spares cr (t.pos + 4) fragment.length) :
    ∃ s t', onTape cr (SliceParser.readN fragment.length) ((t.copied cr 4).forward 4) =
        (.ok s, t') ∧
      t'.rest = more ∧ t'.pos = t.pos + 4 + fragment.length ∧
      (held.fragment cr t.pos fragment.length).cap = t'.memory.cap ∧
      List.Forall₂ (Shown t'.memory (held.fragment cr t.pos fragment.length).exposed)
        (parts ++ [s]) (done ++ [fragment]) := by
  have hlong : 4 ≤ t.rest.length := by
    rw [hrest, length_append]
    exact Nat.le_add_right ..
  let t1 := (t.copied cr 4).forward 4
  let held1 := held.read cr t.pos 4 false
  have hrest1 : t1.rest = fragment ++ more := by
    change t.rest.drop 4 = _
    rw [hrest]
    rfl
  have hcap1 : held1.cap = t1.memory.cap := read_cap held hcap hlong false
  have hparts1 : List.Forall₂ (Shown t1.memory held1.exposed) parts done :=
    hparts.imp fun s f h => h.copied hlong hcap hword false
  rw [Held.fragment]
  by_cases hnil : fragment = []
  · subst hnil
    refine ⟨.fixed [], t1, rfl, hrest1, rfl, hcap1, ?_⟩
    exact rel_append hparts1 (.cons ⟨trivial, rfl, fun h => absurd h id⟩ .nil)
  have hpos := length_pos_of_ne_nil hnil
  have hlong1 : fragment.length ≤ t1.rest.length := by
    rw [hrest1, length_append]
    omega
  have htake : t1.rest.take fragment.length = fragment := by rw [hrest1, take_left]
  refine ⟨t1.slice cr fragment.length, (t1.copied cr fragment.length).forward fragment.length,
    onTape_readN hpos hlong1, ?_, rfl, ?_, ?_⟩
  · change t1.rest.drop fragment.length = more
    rw [hrest1, drop_left]
  · rw [if_neg (ne_of_gt hpos)]
    exact read_cap held1 hcap1 hlong1 true
  · rw [if_neg (ne_of_gt hpos)]
    have hnew := shown_slice cr held1 hlong1
    rw [htake] at hnew
    exact rel_append (hparts1.imp fun s f h => h.copied hlong1 hcap1 (hbs hnil) true)
      (.cons hnew .nil)

/-- The loop puts the fragments of a record together again. -/
theorem fragmentsLoop_onTape (frags : List (List UInt8)) (rounds : Nat) (held : Held)
    (parts : List (Slice UInt8)) (done : List (List UInt8)) (t : Tape)
    (hne : frags ≠ []) (hrds : frags.length ≤ rounds)
    (hfew : done.length + frags.length < maxRecordFragments)
    (hsm : done.flatten.length + frags.flatten.length ≤ maxRecordSize)
    (hrest : t.rest = recordWire frags ++ more) (hcap : held.cap = t.memory.cap)
    (hparts : List.Forall₂ (Shown t.memory held.exposed) parts done)
    (hkept : FragmentsKept cr t.pos held frags) :
    ∃ t', onTape cr (fragmentsLoop rounds parts done.flatten.length) t =
        (.ok (done.flatten ++ frags.flatten), t') ∧
      t'.rest = more ∧ t'.pos = t.pos + (recordWire frags).length ∧
      t'.memory.cap = (heldAfter cr t.pos held frags).cap := by
  induction frags generalizing rounds held parts done t with
  | nil => exact absurd rfl hne
  | cons fragment rest ih =>
    obtain ⟨rounds, rfl⟩ : ∃ k, rounds = k + 1 := ⟨rounds - 1, by
      rw [length_cons] at hrds
      omega⟩
    rw [flatten_cons, length_append] at hsm
    have hsize : fragment.length ≤ maxRecordSize := by omega
    rw [recordWire_cons, append_assoc, append_assoc] at hrest
    obtain ⟨hword, hbs, hkept⟩ := hkept
    obtain ⟨s, t', hread, hrest', hpos', hcap', hparts'⟩ :=
      fragment_read hrest hsize hcap hparts hword hbs
    obtain ⟨htake, hlength, hlast⟩ := marker_read rest.isEmpty hsize
      (fragment ++ (recordWire rest ++ more))
    rw [← hrest] at htake
    have hlong : 4 ≤ t.rest.length := by
      rw [hrest, length_append]
      exact Nat.le_add_right ..
    have hhdr := onTape_readScalar cr .u32be hlong
    have hwidth : Scalar.u32be.width = 4 := rfl
    rw [hwidth, htake] at hhdr
    have hcnt : parts.length = done.length := hparts.length_eq
    have hfits : ¬ (fragment.length > maxRecordSize ∨
        done.flatten.length + fragment.length > maxRecordSize) := by omega
    have hdone : done.flatten.length + fragment.length = (done ++ [fragment]).flatten.length := by
      rw [flatten_append, length_append, flatten_singleton]
    rw [fragmentsLoop, onTape_bind, hhdr]
    simp only [hlength, hlast]
    rw [if_neg (by rw [hcnt]; omega), if_neg hfits, onTape_bind, hread]
    simp only []
    cases rest with
    | nil =>
      rw [if_pos isEmpty_nil, onTape_bind, joinParts_onTape hparts']
      refine ⟨t', ?_, hrest', ?_, hcap'.symm⟩
      · rw [flatten_append]
        rfl
      · rw [recordWire_cons, length_append, length_append]
        change _ = t.pos + (4 + (fragment.length + 0))
        omega
    | cons next rest =>
      rw [if_neg (by rw [isEmpty_cons]; decide), hdone]
      rw [← hpos'] at hkept
      obtain ⟨t'', hloop, hrest'', hpos'', hcap''⟩ := ih rounds _ _ (done ++ [fragment]) t'
        (cons_ne_nil next rest) (by rw [length_cons] at hrds; omega) (by
          rw [length_append, length_singleton]
          rw [length_cons] at hfew
          omega)
        (by rw [← hdone]; omega) hrest' hcap' hparts' hkept
      refine ⟨t'', ?_, hrest'', ?_, ?_⟩
      · rw [hloop, flatten_append, flatten_singleton, append_assoc]
        rfl
      · rw [recordWire_cons fragment, length_append, length_append]
        change _ = t.pos + (4 + (fragment.length + _))
        omega
      · rw [hcap'', hpos']
        rfl

theorem readRecord_onTape (r : Record) (hrest : t.rest = recordWire r.fragments ++ more)
    (hkept : FragmentsKept cr t.pos ⟨t.memory.cap, false⟩ r.fragments) :
    ∃ t', onTape cr readRecord t = (.ok r.message.bytes, t') ∧ t'.rest = more ∧
      t'.pos = t.pos + (recordWire r.fragments).length ∧
      t'.memory.cap = (heldAfter cr t.pos ⟨t.memory.cap, false⟩ r.fragments).cap := by
  have hfew := r.few
  have hsm := r.small
  rw [← r.joined] at hsm
  have hloop := fragmentsLoop_onTape r.fragments (maxRecordFragments + 1)
    ⟨t.memory.cap, false⟩ [] []
    t r.divided (by omega) (by rw [length_nil]; omega)
    (by rw [flatten_nil, length_nil]; omega) hrest rfl .nil hkept
  rw [r.joined] at hloop
  exact hloop

/-! ## Captures -/

/-- The result of the messages of a list, up to the REPLY to the CALL. -/
def noted : Result → List (CallInfo ⊕ ReplyInfo) → Result
  | out, [] => out
  | out, m :: infos =>
    if (out.note m).answered then out.note m else noted (out.note m) infos

/-- The REPLY that is kept, or else the one to this CALL. -/
def replyGiven (kept answer : Option ReplyInfo) (infos : List (CallInfo ⊕ ReplyInfo)) :
    Option ReplyInfo :=
  match answer with
  | some reply => some { reply with matchCallXid := true }
  | none => kept.or (infos.findSome? replyOf)

variable (infos : List (CallInfo ⊕ ReplyInfo))

/-- No REPLY is marked before it was compared with a CALL. -/
def Unmarked : Prop := ∀ reply, .inr reply ∈ infos → reply.matchCallXid = false

theorem note_call {call : CallInfo} (c : CallInfo) :
    Result.note ⟨looks, some call, kept⟩ (.inl c) = ⟨true, some call, kept⟩ := rfl

/-- A REPLY to another CALL is kept if it is the first one. -/
theorem note_other {call : Option CallInfo} (hmark : reply.matchCallXid = false)
    (hoth : (call.any fun c => reply.xid == c.xid) = false) :
    Result.note ⟨looks, call, kept⟩ (.inr reply) = ⟨true, call, kept.or (some reply)⟩ := by
  have hsame : ({ reply with matchCallXid := false } : ReplyInfo) = reply := by rw [← hmark]
  rw [Result.note]
  simp only [hoth]
  cases kept with
  | none => simp [hsame]
  | some first => rfl

theorem any_or_unmarked
    (hkept : kept.any ReplyInfo.matchCallXid = false) (hmark : reply.matchCallXid = false) :
    (kept.or (some reply)).any ReplyInfo.matchCallXid = false := by
  cases kept with
  | none => exact hmark
  | some first => exact hkept

theorem replyGiven_cons (kept answer : Option ReplyInfo) (reply : ReplyInfo)
    (infos : List (CallInfo ⊕ ReplyInfo)) :
    replyGiven (kept.or (some reply)) answer infos =
      replyGiven kept answer (.inr reply :: infos) := by
  cases answer with
  | none => exact Option.or_assoc
  | some found => rfl

/-- Behind the first CALL. -/
theorem noted_behind (call : CallInfo) (kept : Option ReplyInfo)
    (infos : List (CallInfo ⊕ ReplyInfo)) (hkept : kept.any ReplyInfo.matchCallXid = false)
    (hunm : Unmarked infos) :
    noted ⟨true, some call, kept⟩ infos =
      ⟨true, some call, replyGiven kept (answerTo call infos) infos⟩ := by
  induction infos generalizing kept with
  | nil =>
    cases kept <;> rfl
  | cons m infos ih =>
    have hrest : Unmarked infos := fun reply h => hunm reply (mem_cons_of_mem m h)
    cases m with
    | inl c =>
      have hans : (Result.mk true (some call) kept).answered = false := hkept
      rw [noted, note_call, hans, ih kept hkept hrest]
      rfl
    | inr reply =>
      have hmark := hunm reply (mem_cons_self ..)
      by_cases hsame : reply.xid = call.xid
      · have hfnd : answerTo call (.inr reply :: infos) = some reply := by
          rw [answerTo, findSome?_cons, replyOf, Option.filter_some, beq_iff_eq.mpr hsame]
          rfl
        have hnote : Result.note ⟨true, some call, kept⟩ (.inr reply) =
            ⟨true, some call, some { reply with matchCallXid := true }⟩ := by
          rw [Result.note]
          simp [beq_iff_eq.mpr hsame]
        rw [noted, hnote, hfnd]
        rfl
      · have hoth : (reply.xid == call.xid) = false := beq_eq_false_iff_ne.mpr hsame
        have hfnd : answerTo call (.inr reply :: infos) = answerTo call infos := by
          rw [answerTo, findSome?_cons, replyOf, Option.filter_some, hoth]
          rfl
        have hkept' := any_or_unmarked hkept hmark
        have hans : (Result.mk true (some call) (kept.or (some reply))).answered = false := hkept'
        have hnote : Result.note ⟨true, some call, kept⟩ (.inr reply) =
            ⟨true, some call, kept.or (some reply)⟩ := note_other hmark hoth
        rw [noted, hnote, hans, if_neg Bool.false_ne_true, ih _ hkept' hrest, hfnd, replyGiven_cons]

/-- A message list from its start. -/
theorem noted_empty (looks : Bool) (kept : Option ReplyInfo) (infos : List (CallInfo ⊕ ReplyInfo))
    (hne : infos ≠ []) (hkept : kept.any ReplyInfo.matchCallXid = false)
    (hunm : Unmarked infos) :
    noted ⟨looks, none, kept⟩ infos = ⟨true, infos.findSome? callOf,
      replyGiven kept ((infos.findSome? callOf).bind fun call => answerTo call (behindCall infos))
        infos⟩ := by
  induction infos generalizing looks kept with
  | nil => exact absurd rfl hne
  | cons m infos ih =>
    have hrest : Unmarked infos := fun reply h => hunm reply (mem_cons_of_mem m h)
    cases m with
    | inl call =>
      have hans : (Result.mk true (some call) kept).answered = false := hkept
      have hnote : Result.note ⟨looks, none, kept⟩ (.inl call) = ⟨true, some call, kept⟩ := rfl
      rw [noted, hnote, hans, noted_behind call kept infos hkept hrest]
      rfl
    | inr reply =>
      have hmark := hunm reply (mem_cons_self ..)
      rw [noted, note_other hmark rfl]
      cases infos with
      | nil => cases kept <;> rfl
      | cons m' infos =>
        rw [ih true _ (cons_ne_nil m' infos) (any_or_unmarked hkept hmark) hrest, replyGiven_cons]
        rfl

theorem unmarked_infos (records : List Record) :
    Unmarked (records.map fun r => r.message.info) := by
  intro reply hmem
  obtain ⟨r, -, hinfo⟩ := mem_map.mp hmem
  cases hm : r.message with
  | call =>
    rw [hm] at hinfo
    cases hinfo
  | accepted | denied =>
    rw [hm] at hinfo
    obtain rfl := Sum.inr.inj hinfo
    rfl

theorem replyGiven_none :
    replyGiven none ((infos.findSome? callOf).bind fun call => answerTo call (behindCall infos))
      infos = replyReport infos := by
  rw [replyReport]
  cases (infos.findSome? callOf).bind fun call => answerTo call (behindCall infos) with
  | none => exact Option.none_or
  | some reply => rfl

theorem finish_noted (hunm : Unmarked infos) : finish (noted .empty infos) = report infos := by
  cases infos with
  | nil => rfl
  | cons m infos =>
    rw [Result.empty, noted_empty false none _ (cons_ne_nil m infos) rfl hunm, replyGiven_none]
    rfl

theorem bytes_ne_nil (m : RpcMessage) : ∃ b rest, m.bytes = b :: rest := by
  cases m with
  | denied xid why => cases why <;> exact ⟨_, _, rfl⟩
  | _ => exact ⟨_, _, rfl⟩

theorem recordWire_length (r : Record) : 4 ≤ (recordWire r.fragments).length := by
  obtain ⟨fragment, rest, hfragments⟩ := exists_cons_of_ne_nil r.divided
  rw [hfragments, recordWire_cons, length_append]
  exact le_add_right 4 _

/-- The loop takes the messages one by one, up to the REPLY to the CALL. -/
theorem messagesLoop_onTape (records : List Record) (rounds : Nat) (out : Result) (t : Tape)
    (hrest : t.rest = recordsWire records) (hrds : records.length ≤ rounds)
    (hrange : ∀ r ∈ records, r.message.InRange)
    (hkept : RecordsKept cr t.pos t.memory.cap records) :
    (onTape cr (messagesLoop false rounds out) t).1 =
      finish (noted out (records.map fun r => r.message.info)) := by
  induction records generalizing rounds out t with
  | nil =>
    cases rounds with
    | zero => rfl
    | succ rounds =>
      rw [messagesLoop, onTape_bind, onTape_remaining, hrest]
      rfl
  | cons r records ih =>
    obtain ⟨rounds, rfl⟩ : ∃ k, rounds = k + 1 := ⟨rounds - 1, by
      rw [length_cons] at hrds
      omega⟩
    rw [recordsWire, flatMap_cons] at hrest
    have hlong : ¬ (t.rest.length : Int) < 4 := by
      have hwire := recordWire_length r
      rw [hrest, length_append]
      omega
    obtain ⟨t', hread, hrest', hpos', hcap'⟩ := readRecord_onTape r hrest hkept.1
    obtain ⟨b, rest, hbs⟩ := bytes_ne_nil r.message
    have hprs := rpcRecord_bytes r.known (hrange r (mem_cons_self ..))
    rw [messagesLoop, onTape_bind, onTape_remaining, if_neg hlong, onTape_bind, hread]
    rw [hbs] at hprs ⊢
    simp only [hprs, Bool.false_or]
    rw [map_cons, noted]
    by_cases hans : (out.note r.message.info).answered = true
    · rw [if_pos hans, if_pos hans]
      rfl
    rw [if_neg hans, if_neg hans]
    refine ih rounds _ t' hrest' ?_ ?_ ?_
    · rw [length_cons] at hrds
      omega
    · exact fun r' hr' => hrange r' (mem_cons_of_mem r hr')
    · rw [hpos', hcap']
      exact hkept.2

/-- A capture of messages in the ranges the parser looks for, in whatever
fragments, is reported as its messages are, in every chunking in which no fragment
is written over before its record is complete. -/
theorem messages_reported (records : List Record) (chunks : List (List UInt8))
    (hfew : records.length ≤ maxMessagesRead) (hrange : ∀ r ∈ records, r.message.InRange)
    (hwire : chunks.flatten = recordsWire records)
    (hkept : RecordsKept (crosses chunks) 0 0 records) :
    SunRpc.parse.onReader (bufferOf chunks).newReader =
      some (report (records.map fun r => r.message.info)) := by
  rw [onReader_eq_onTape, Option.some.injEq, SunRpc.parse, parseMessages, onTape_bind,
    onTape_remaining]
  cases records with
  | nil =>
    rw [hwire]
    rfl
  | cons r records =>
    have hlong : ¬ (chunks.flatten.length : Int) < 4 := by
      have hlen := recordWire_length r
      rw [hwire, recordsWire, flatMap_cons, length_append]
      omega
    rw [if_neg hlong, messagesLoop_onTape (r :: records) _ _ ⟨0, chunks.flatten, Scratch.none⟩
      hwire hfew hrange hkept]
    exact finish_noted _ (unmarked_infos (r :: records))

/-! ### Some records -/

/-- `AUTH_NULL`. -/
def nullAuth : OpaqueAuth := ⟨0, [], zero_le _⟩

/-- A CALL of NFS. -/
def nfsCall (vers proc : UInt32) : RpcMessage := .call 7 100003 vers proc nullAuth nullAuth []

/-- A CALL of NFS in two fragments. -/
def nfsRecord (vers proc : UInt32) : Record where
  message := nfsCall vers proc
  fragments := [(nfsCall vers proc).bytes.take 20, (nfsCall vers proc).bytes.drop 20]
  known := ⟨show validProgram 100003 = true by decide, rfl, rfl⟩
  divided := cons_ne_nil _ _
  few := show 2 < 64 by decide
  joined := by rw [flatten_cons, flatten_singleton, take_append_drop]
  small := show 40 ≤ 1048576 by decide

/-- A REPLY in one fragment. -/
def replyRecord (why : Rejected) : Record where
  message := .denied 7 why
  fragments := [(RpcMessage.denied 7 why).bytes]
  known := trivial
  divided := cons_ne_nil _ _
  few := show 1 < 64 by decide
  joined := append_nil _
  small := by
    cases why with
    | rpcMismatch low high => exact show 24 ≤ 1048576 by decide
    | authError stat => exact show 20 ≤ 1048576 by decide

/-- A CALL and a REPLY. -/
def nfsExchange : List Record := [nfsRecord 3 1, replyRecord (.rpcMismatch 2 2)]

/-- The first chunk ends in the second fragment of the CALL, the second in the REPLY. -/
def nfsChunks : List (List UInt8) :=
  [(recordsWire nfsExchange).take 30, ((recordsWire nfsExchange).drop 30).take 30,
    (recordsWire nfsExchange).drop 60]

theorem messages_reported_call :
    RecordsKept (crosses nfsChunks) 0 0 nfsExchange ∧
      SunRpc.parse.onReader (bufferOf nfsChunks).newReader =
        some (⟨true, some ⟨7, 100003, 3, 1, 0⟩, some ⟨7, 0, true, true⟩⟩, none) :=
  ⟨by decide, messages_reported nfsExchange _ (by decide)
    (forall_mem_cons.mpr ⟨⟨by decide, by decide⟩, forall_mem_singleton.mpr trivial⟩)
    (by decide +kernel) (by decide)⟩

/-- A version 0, a procedure above 0xffff and the last `auth_stat` are refused,
and so is a CALL whose second fragment was written over the first. -/
theorem messages_refused :
    report [(nfsRecord 0 1).message.info] = (⟨true, some ⟨7, 100003, 0, 1, 0⟩, none⟩, none) ∧
    (SunRpc.parse.onReader (bufferOf [recordsWire [nfsRecord 0 1]]).newReader =
        some (.empty, some .notSunRPC) ∧
      SunRpc.parse.onReader (bufferOf [recordsWire [nfsRecord 3 0x10000]]).newReader =
        some (.empty, some .notSunRPC)) ∧
      SunRpc.parse.onReader (bufferOf [recordsWire [replyRecord (.authError 14)]]).newReader =
        some (.empty, some .notSunRPC) ∧
      [(recordsWire [nfsRecord 3 1]).take 10, ((recordsWire [nfsRecord 3 1]).drop 10).take 30,
        (recordsWire [nfsRecord 3 1]).drop 40].flatten = recordsWire [nfsRecord 3 1] ∧
      SunRpc.parse.onReader (bufferOf [(recordsWire [nfsRecord 3 1]).take 10,
        ((recordsWire [nfsRecord 3 1]).drop 10).take 30,
        (recordsWire [nfsRecord 3 1]).drop 40]).newReader = some (.empty, some .notSunRPC) := by
  refine ⟨rfl, ⟨by decide +kernel, by decide +kernel⟩, by decide +kernel, by decide +kernel,
    by decide +kernel⟩

end Obi.Refine
