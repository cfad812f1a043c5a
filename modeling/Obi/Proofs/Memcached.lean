import Obi.Proofs.GoBytes
import Obi.Proofs.SliceReader
import Obi.Spec.Memcached

/-!
# Memcached captures

The line of a request is looked at when it was read, but its key is copied only
after the data block was looked at. If both lie in the scratch memory, the block
was written over the line, and the key is what the block has in its place. A
request whose last argument is the word `noreply` is taken for one with the
option, and refused.
-/

namespace Obi.Refine
open Lib Ref Spec List SliceParser Nat Option Ref.Memcached Spec.Memcached
variable {cr : Nat → Nat → Bool} {t : Tape}

/-! ## Fields -/

variable {w text more payload : List UInt8} {words : List (List UInt8)}

theorem splitFields_word (hw : 32 ∉ w) (pos : Nat) (field text : List UInt8) :
    memcachedSplitFields pos field (w ++ text) =
      memcachedSplitFields (pos + w.length) (field ++ w) text := by
  induction w generalizing pos field with
  | nil => rw [nil_append, append_nil, length_nil, add_zero]
  | cons b w ih =>
    have hb : b ≠ 32 := fun h => hw (by rw [h]; exact mem_cons_self ..)
    rw [cons_append, memcachedSplitFields, if_neg hb,
      ih fun h => hw (mem_cons_of_mem b h), append_assoc, length_cons]
    congr 1
    omega

theorem splitFields_spaces {sep : List UInt8} (hsep : ∀ b ∈ sep, b = 32) (pos : Nat)
    (text : List UInt8) :
    memcachedSplitFields pos [] (sep ++ text) =
      memcachedSplitFields (pos + sep.length) [] text := by
  induction sep generalizing pos with
  | nil => rfl
  | cons b sep ih =>
    rw [cons_append, memcachedSplitFields, if_pos (hsep b (mem_cons_self ..)), closeField,
      if_pos rfl, nil_append, ih fun b' hb' => hsep b' (mem_cons_of_mem b hb'), length_cons]
    congr 1
    omega

theorem word_no_space (h : IsWord w) : 32 ∉ w := by
  intro hmem
  exact absurd (h.2 32 hmem).1 (by decide)

theorem spaced_head (h : Spaced text words) : text = [] ∨ ∃ rest, text = 32 :: rest := by
  cases h with
  | spaces hall =>
    cases text with
    | nil => exact .inl rfl
    | cons b rest => exact .inr ⟨rest, by rw [hall b (mem_cons_self ..)]⟩
  | word hne hsep _ _ =>
    obtain ⟨b, sep, rfl⟩ := exists_cons_of_ne_nil hne
    rw [hsep b (mem_cons_self ..)]
    exact .inr ⟨_, rfl⟩

/-- A word is closed by what follows it. -/
theorem splitFields_spaced (hw : w ≠ []) (h : Spaced text words) (pos : Nat) :
    memcachedSplitFields pos w text = (pos - w.length, w) :: memcachedSplitFields pos [] text := by
  have hclose : closeField pos w = [(pos - w.length, w)] := by rw [closeField, if_neg hw]
  rcases spaced_head h with rfl | ⟨rest, rfl⟩
  · rw [memcachedSplitFields, hclose]
    rfl
  · rw [memcachedSplitFields, hclose]
    rfl

/-- The fields of a text, the first of them with its place. -/
theorem splitFields_text (h : Spaced text words) (pos : Nat) :
    (memcachedSplitFields pos [] text).map Prod.snd = words ∧
      ∀ w rest, words = w :: rest → ∃ places, memcachedSplitFields pos [] text =
        (pos + (text.takeWhile (· = 32)).length, w) :: places := by
  induction h generalizing pos with
  | @spaces text hall =>
    have hspl := splitFields_spaces hall pos []
    rw [append_nil] at hspl
    refine ⟨?_, fun w rest h => nomatch h⟩
    rw [hspl]
    rfl
  | @word sep w text words hne hsep hw h ih =>
    have hfst : memcachedSplitFields pos [] (sep ++ (w ++ text)) =
        (pos + sep.length, w) :: memcachedSplitFields (pos + sep.length + w.length) [] text := by
      rw [splitFields_spaces hsep, splitFields_word (word_no_space hw), nil_append,
        splitFields_spaced hw.1 h, Nat.add_sub_cancel]
    have htake : (sep ++ (w ++ text)).takeWhile (· = 32) = sep := by
      obtain ⟨b, w, rfl⟩ := exists_cons_of_ne_nil hw.1
      have hb : b ≠ 32 := fun hb => word_no_space hw (by rw [hb]; exact mem_cons_self ..)
      rw [takeWhile_append_of_pos (by simpa using hsep), cons_append,
        takeWhile_cons_of_neg (by simpa using hb), append_nil]
    refine ⟨?_, ?_⟩
    · rw [hfst, map_cons, (ih _).1]
    · rintro w' rest hwords
      obtain ⟨rfl, rfl⟩ := cons.inj hwords
      rw [hfst, htake]
      exact ⟨_, rfl⟩

/-- A field lies where its place says. -/
theorem splitFields_place (whole : List UInt8) (pos : Nat) (field s : List UInt8)
    (hs : whole.drop pos = s) (hpos : pos ≤ whole.length) (hfield : field <:+ whole.take pos) :
    ∀ f ∈ memcachedSplitFields pos field s, (whole.drop f.1).take f.2.length = f.2 := by
  induction s generalizing pos field with
  | nil => exact closeField_place hpos hfield
  | cons b s ih =>
    obtain ⟨hlt, hnext, htake⟩ := drop_cons hs
    rw [memcachedSplitFields]
    split
    · intro f hf
      rcases mem_append.mp hf with hf | hf
      · exact closeField_place hpos hfield f hf
      · exact ih _ _ hnext hlt nil_suffix f hf
    refine ih _ _ hnext hlt ?_
    obtain ⟨u, hu⟩ := hfield
    exact ⟨u, by rw [htake, ← hu, append_assoc]⟩

/-! ## Verbs and arguments -/

theorem verb_letters (c : Command) :
    c.verb ≠ [] ∧ c.verb.all (fun b => decide (95 ≤ b)) = true := by
  cases c with
  | get gets _ _ => cases gets <;> simp only [Command.verb] <;> decide
  | gat gats _ _ _ => cases gats <;> simp only [Command.verb] <;> decide
  | store how _ _ _ _ _ => cases how <;> simp only [Command.verb] <;> decide
  | _ => simp only [Command.verb]; decide

theorem verb_command (c : Command) : memcachedCommands.lookup c.verb = some c.op ∧
    memcachedResponses.contains c.verb = false ∧ c.verb ≠ ascii "noreply" := by
  cases c with
  | get gets _ _ => cases gets <;> simp only [Command.verb, Command.op] <;> decide
  | gat gats _ _ _ => cases gats <;> simp only [Command.verb, Command.op] <;> decide
  | store how _ _ _ _ _ => cases how <;> simp only [Command.verb, Command.op] <;> decide
  | _ => simp only [Command.verb, Command.op]; decide

theorem isDecimal_iff : isASCIIDecimal w = true ↔ IsDecimal w := by
  rw [isASCIIDecimal, IsDecimal]
  simp

theorem signed_of_isSigned (h : IsSigned w) : memcachedSignedIntField w = true := by
  rw [memcachedSignedIntField, Bool.and_eq_true]
  rcases h with hdec | ⟨digits, rfl, hdec⟩
  · refine ⟨?_, ?_⟩
    · rw [Bool.not_eq_true', isEmpty_eq_false_iff]
      exact hdec.1
    have hminus : w.head? ≠ some 45 := by
      intro hhead
      exact absurd (hdec.2 45 (mem_of_head? hhead)) (by decide)
    rw [if_neg hminus]
    exact isDecimal_iff.mpr hdec
  · exact ⟨rfl, isDecimal_iff.mpr hdec⟩

theorem signed_ne_noreply (h : IsSigned w) : w ≠ ascii "noreply" := by
  rintro rfl
  exact absurd (signed_of_isSigned h) (by decide)

theorem decimal_ne_noreply (h : IsDecimal w) : w ≠ ascii "noreply" := signed_ne_noreply (.inl h)

variable (r : Request) {c : Command} {line : List UInt8} {place : Nat}

/-- The fields of a request. -/
def fieldsOf : List (List UInt8) :=
  r.command.verb :: (r.command.args ++ if r.noreply then [ascii "noreply"] else [])

theorem splitFields_line : ∃ places, memcachedSplitFields 0 [] r.line =
    (0, r.command.verb) :: places ∧
      places = memcachedSplitFields r.command.verb.length [] r.text := by
  obtain ⟨hne, hlets⟩ := verb_letters r.command
  have hspace : 32 ∉ r.command.verb := by
    intro hmem
    exact absurd (forall_mem_of_all hlets 32 hmem) (by decide)
  refine ⟨_, ?_, rfl⟩
  rw [Request.line, splitFields_word hspace, nil_append, zero_add,
    splitFields_spaced hne r.written, Nat.sub_self]

theorem fields_line : (memcachedSplitFields 0 [] r.line).map Prod.snd = fieldsOf r := by
  obtain ⟨places, hspl, rfl⟩ := splitFields_line r
  rw [hspl, map_cons, (splitFields_text r.written _).1]
  rfl

theorem fieldsHaveNoreply :
    memcachedFieldsHaveNoreply (fieldsOf r) = true ↔ r.noreply = true ∨ r.LooksNoreply := by
  rw [memcachedFieldsHaveNoreply, decide_eq_true_eq, fieldsOf, Request.LooksNoreply]
  have hverb := (verb_command r.command).2.2
  cases hnorep : r.noreply with
  | true =>
    simp only [true_or, iff_true]
    rw [← cons_append, getLast?_append]
    rfl
  | false =>
    simp only [Bool.false_eq_true, false_or, if_false, true_and, append_nil]
    cases hargs : r.command.args with
    | nil =>
      rw [getLast?_singleton, some.injEq]
      exact iff_of_false hverb (fun h => nomatch h)
    | cons a rest => rw [getLast?_cons_cons]

/-- A request that ends in the word `noreply` is one that can end in any word. -/
theorem looksNoreply_cases {r : Request} (h : r.LooksNoreply) :
    memcachedCommandSupportsNoreply r.command.op = false ∨ ∃ key, r.command = .delete key := by
  obtain ⟨-, hlast⟩ := h
  have hval := r.valid
  cases hc : r.command with
  | get | gat | stats | version => exact .inl rfl
  | delete key => exact .inr ⟨key, rfl⟩
  | store how key flags exptime size payload =>
    rw [hc] at hlast hval
    exact absurd (some.inj hlast) (decimal_ne_noreply hval.2.2.1)
  | cas key flags exptime size unique payload =>
    rw [hc] at hlast hval
    exact absurd (some.inj hlast) (decimal_ne_noreply hval.2.2.2)
  | incr key value | decr key value =>
    rw [hc] at hlast hval
    exact absurd (some.inj hlast) (decimal_ne_noreply hval)
  | touch key exptime =>
    rw [hc] at hlast hval
    exact absurd (some.inj hlast) (signed_ne_noreply hval)
  | flushAll delay =>
    rw [hc] at hlast hval
    cases delay with
    | none => cases hlast
    | some w => exact absurd (some.inj hlast) (signed_ne_noreply (hval w rfl))

/-- The arguments of a valid command pass the checks. -/
theorem validRequestFields :
    memcachedValidRequestFields (fieldsOf r) r.command.op r.noreply = true := by
  have hval := r.valid
  have hallow := r.allowed
  have hunder : ∀ c : Command, (r.noreply = true → c.AllowsNoreply) → ¬ c.AllowsNoreply →
      r.noreply = false := by
    intro c himp hno
    rw [← Bool.not_eq_true]
    exact fun htrue => hno (himp htrue)
  rw [fieldsOf]
  cases hc : r.command with
  | get gets key more => simp [memcachedValidRequestFields, Command.op, Command.args]
  | gat gats exptime key more =>
    rw [hc] at hval
    simp [memcachedValidRequestFields, Command.op, Command.args, signed_of_isSigned hval]
  | store how key flags exptime size payload =>
    rw [hc] at hval
    have hexp := signed_of_isSigned hval.2.1
    have hsize := signed_of_isSigned (.inl hval.2.2.1)
    cases r.noreply <;> cases how <;>
      simp [memcachedValidRequestFields, Command.op, Command.args, memcachedMatchesFieldCount,
        hexp, hsize]
  | cas key flags exptime size unique payload =>
    rw [hc] at hval
    have hexp := signed_of_isSigned hval.2.1
    have hsize := signed_of_isSigned (.inl hval.2.2.1.1)
    cases r.noreply <;>
      simp [memcachedValidRequestFields, Command.op, Command.args, memcachedMatchesFieldCount,
        hexp, hsize]
  | delete key | incr key value | decr key value =>
    cases r.noreply <;> rfl
  | touch key exptime =>
    rw [hc] at hval
    cases r.noreply <;>
      simp [memcachedValidRequestFields, Command.op, Command.args, memcachedMatchesFieldCount,
        signed_of_isSigned hval]
  | flushAll delay =>
    rw [hc] at hval
    cases delay with
    | none => cases r.noreply <;> rfl
    | some w =>
      cases r.noreply <;>
        simp [memcachedValidRequestFields, Command.op, Command.args,
          signed_of_isSigned (hval w rfl)]
  | stats args => simp [memcachedValidRequestFields, Command.op]
  | version =>
    rw [hc] at hallow
    rw [hunder _ hallow id]
    rfl

theorem line_not_numeric : isMemcachedNumericLine r.line = false := by
  obtain ⟨hne, hlets⟩ := verb_letters r.command
  obtain ⟨b, rest, hverb⟩ := exists_cons_of_ne_nil hne
  rw [← Bool.not_eq_true, isMemcachedNumericLine, isDecimal_iff]
  intro hdec
  have hb : b ∈ r.command.verb := by
    rw [hverb]
    exact mem_cons_self ..
  have hdigit := (hdec.2 b (mem_append_left _ hb)).2
  have hlet := forall_mem_of_all hlets b hb
  exact absurd (UInt8.le_trans hlet hdigit) (by decide)

theorem noreply_of_allows (h : c.AllowsNoreply) :
    memcachedCommandSupportsNoreply c.op = true := by
  cases c with
  | get | gat | stats | version => exact absurd h id
  | store how => cases how <;> rfl
  | _ => rfl

theorem requestOf_line : (r.LooksNoreply → requestOf r.line (fieldsOf r) = none) ∧
      (¬ r.LooksNoreply → requestOf r.line (fieldsOf r) = some (r.command.op, r.noreply)) := by
  obtain ⟨hlook, hresp, -⟩ := verb_command r.command
  have hnorep := fieldsHaveNoreply r
  have hreq : requestOf r.line (fieldsOf r) =
      if memcachedFieldsHaveNoreply (fieldsOf r) &&
          !memcachedCommandSupportsNoreply r.command.op then
        none
      else if !memcachedValidRequestFields (fieldsOf r) r.command.op
          (memcachedFieldsHaveNoreply (fieldsOf r)) then none
      else some (r.command.op, memcachedFieldsHaveNoreply (fieldsOf r)) := by
    rw [fieldsOf, requestOf]
    simp only [hresp, line_not_numeric r, Bool.or_self, Bool.false_eq_true, if_false, hlook]
  rw [hreq]
  refine ⟨fun hlooks => ?_, fun hlooks => ?_⟩
  · rw [hnorep.mpr (.inr hlooks)]
    rcases looksNoreply_cases hlooks with hno | ⟨key, hdelete⟩
    · rw [hno]
      rfl
    · rw [fieldsOf, hdelete, hlooks.1]
      rfl
  · rw [or_iff_left hlooks, ← Bool.eq_iff_iff] at hnorep
    rw [hnorep, validRequestFields r]
    cases hflag : r.noreply with
    | false => rfl
    | true =>
      rw [noreply_of_allows (r.allowed hflag)]
      rfl

/-! ## Reading lines -/

theorem spaced_no_cr (h : Spaced text words) : 13 ∉ text := by
  induction h with
  | spaces hall =>
    intro hmem
    exact absurd (hall 13 hmem) (by decide)
  | word _ hsep hw _ ih =>
    rw [mem_append, mem_append]
    rintro (hmem | hmem | hmem)
    · exact absurd (hsep 13 hmem) (by decide)
    · exact absurd (hw.2 13 hmem).1 (by decide)
    · exact ih hmem

theorem request_line_no_cr : 13 ∉ r.line := by
  rw [Request.line, mem_append]
  rintro (hmem | hmem)
  · exact absurd (forall_mem_of_all (verb_letters r.command).2 13 hmem) (by decide)
  · exact spaced_no_cr r.written hmem

theorem request_line_pos : 0 < r.line.length := by
  have hpos := length_pos_of_ne_nil (verb_letters r.command).1
  rw [Request.line, length_append]
  omega

variable (cr) in
theorem firstLine_onTape (hcr : 13 ∉ line) (hpos : 0 < line.length)
    (hrest : t.rest = line ++ (crlf ++ more)) :
    ∃ s, onTape cr memcachedFirstLineFromReader t = (some s, t.copied cr (line.length + 2)) ∧
      (t.copied cr (line.length + 2)).memory.load s = line := by
  have hlen : t.rest.length = line.length + 2 + more.length := by
    rw [hrest, length_append, length_append]
    exact (add_assoc ..).symm
  have hlong : line.length + 2 ≤ t.rest.length := by omega
  have hfind : t.find 13 = line.length := find_append hcr hrest
  have htake : t.rest.take (line.length + 2) = line ++ crlf := by
    have hcnt : line.length + 2 = (line ++ crlf).length := by
      rw [length_append]
      rfl
    rw [hrest, ← append_assoc, hcnt, take_left]
  have hpeek : onTape cr (peek (line.length + crlf.length)) t =
      (.ok (t.slice cr (line.length + 2)), t.copied cr (line.length + 2)) :=
    onTape_peek (zero_lt_succ _) hlong
  have hload : (t.copied cr (line.length + 2)).memory.load (t.slice cr (line.length + 2)) =
      line ++ crlf := by rw [load_slice_copied cr hlong, htake]
  have hlf : (line ++ crlf)[(line.length : Int).toNat + 1]? = some 10 := by
    rw [Int.toNat_natCast, getElem?_append_right (Nat.le_add_right ..), Nat.add_sub_cancel_left]
    rfl
  refine ⟨(t.slice cr (line.length + 2)).slice 0 line.length, ?_, ?_⟩
  · have hmin : ¬ (t.rest.length < minMemcachedFrameLen) := by
      rw [minMemcachedFrameLen]
      omega
    have hin : ¬ ((line.length : Int) ≤ 0 ∨ (t.rest.length : Int) ≤ line.length + 1) := by omega
    rw [memcachedFirstLineFromReader, onTape_then (onTape_remaining t), if_neg hmin,
      onTape_then (onTape_indexByte _ t), hfind, if_neg hin, onTape_then hpeek,
      onTape_then (onTape_load _ _), hload, if_neg (fun h => h hlf)]
    rfl
  · rw [Scratch.load_slice, hload, drop_zero, Nat.sub_zero, take_left]

/-- The tape behind a line and its line end. -/
def behindLine (cr : Nat → Nat → Bool) (n : Nat) (t : Tape) : Tape :=
  (((t.copied cr (n + 2)).copied cr n).forward n).forward 2

variable (cr) in
theorem readLine_onTape (hcr : 13 ∉ line) (hpos : 0 < line.length)
    (hrest : t.rest = line ++ (crlf ++ more)) :
    onTape cr memcachedReadLineFromReader t =
      (some ((t.copied cr (line.length + 2)).slice cr line.length),
        behindLine cr line.length t) := by
  have hlen : t.rest.length = line.length + 2 + more.length := by
    rw [hrest, length_append, length_append]
    exact (add_assoc ..).symm
  obtain ⟨s, hfst, hload⟩ := firstLine_onTape cr hcr hpos hrest
  let t1 := t.copied cr (line.length + 2)
  let t2 := (t1.copied cr line.length).forward line.length
  have hread : onTape cr (readN line.length) t1 = (.ok (t1.slice cr line.length), t2) :=
    onTape_readN hpos (show line.length ≤ t.rest.length by omega)
  have hskip : onTape cr (skip crlf.length) t2 = (.ok (), t2.forward 2) := by
    refine onTape_skip ?_
    change 2 ≤ (t.rest.drop line.length).length
    rw [length_drop]
    omega
  rw [memcachedReadLineFromReader, onTape_then hfst, onTape_then (onTape_load _ _), hload,
    onTape_then hread, onTape_then hskip]
  rfl

variable (cr) in
theorem behindLine_rest (hrest : t.rest = line ++ (crlf ++ more)) :
    (behindLine cr line.length t).rest = more := by
  change (t.rest.drop line.length).drop 2 = more
  rw [hrest, drop_left]
  rfl

theorem behindLine_pos (n : Nat) : (behindLine cr n t).pos = t.pos + (n + 2) := add_assoc ..

theorem behindLine_cap {n : Nat} (hlong : n + 2 ≤ t.rest.length) :
    (behindLine cr n t).memory.cap = grown cr t.pos n (grown cr t.pos (n + 2) t.memory.cap) := by
  change ((t.copied cr (n + 2)).copied cr n).memory.cap = _
  rw [cap_copied (t := t.copied cr (n + 2)) (show n ≤ t.rest.length by omega), cap_copied hlong]
  rfl

variable (cr) in
/-- What the slice of a line shows after `k` more bytes were looked at. -/
theorem load_line_over (hrest : t.rest = line ++ (crlf ++ more)) {k : Nat} (hk : k ≤ more.length) :
    ((behindLine cr line.length t).copied cr k).memory.load
        ((t.copied cr (line.length + 2)).slice cr line.length) =
      if cr t.pos line.length = true ∧ cr (t.pos + (line.length + 2)) k = true ∧
          k ≤ (behindLine cr line.length t).memory.cap then
        (more.take k ++ line.drop k).take line.length
      else line := by
  have hrest' := behindLine_rest cr hrest
  have htake : t.rest.take line.length = line := by rw [hrest, take_left]
  have hlong : line.length ≤ t.rest.length := by
    rw [hrest, length_append]
    omega
  have hk' : k ≤ (behindLine cr line.length t).rest.length := by
    rw [hrest']
    exact hk
  have hover := load_slice_over cr (t := t.copied cr (line.length + 2)) hlong hk' rfl
  rw [hrest'] at hover
  rw [hover]
  change (if _ then (more.take k ++ (t.rest.take line.length).drop k).take line.length
    else t.rest.take line.length) = _
  rw [htake]
  rfl

/-! ## Operations -/

theorem bytesField_payload (h : r.command.payload = some payload) :
    memcachedCommandBytesField (fieldsOf r) r.command.op = some (payload.length : Int) ∧
      payload.length + 2 < 2 ^ 63 := by
  have hval := r.valid
  have hsize : ∀ size, IsSize size payload.length → atoi size = some payload.length ∧
      payload.length + 2 < 2 ^ 63 := by
    rintro size ⟨⟨hne, hdigs⟩, hvalue, hlt⟩
    exact ⟨atoi_number ⟨hne, hdigs, hvalue, by omega⟩, hlt⟩
  cases hc : r.command with
  | store how key flags exptime size payload' =>
    rw [hc] at h hval
    obtain rfl : payload' = payload := some.inj h
    obtain ⟨hatoi, hlt⟩ := hsize size hval.2.2
    refine ⟨?_, hlt⟩
    rw [fieldsOf, hc]
    cases how <;>
      simp [memcachedCommandBytesField, Command.args, Command.op, hatoi]
  | cas key flags exptime size unique payload' =>
    rw [hc] at h hval
    obtain rfl : payload' = payload := some.inj h
    obtain ⟨hatoi, hlt⟩ := hsize size hval.2.2.1
    refine ⟨?_, hlt⟩
    rw [fieldsOf, hc]
    simp [memcachedCommandBytesField, Command.args, Command.op, hatoi]
  | _ =>
    rw [hc] at h
    cases h

theorem hasPayload (c : Command) : memcachedCommandHasPayload c.op = c.payload.isSome := by
  cases c with
  | store how => cases how <;> rfl
  | _ => rfl

/-- The key is the first argument of a storage command. -/
theorem storage_key (h : c.payload = some payload) :
    memcachedCommandKeyField c.op = some 1 ∧ ∃ rest, c.args = c.key :: rest := by
  cases c with
  | store how => cases how <;> exact ⟨rfl, _, rfl⟩
  | cas => exact ⟨rfl, _, rfl⟩
  | _ => cases h

/-- The key of any command. -/
theorem keyField : match memcachedCommandKeyField r.command.op with
    | none => r.command.key = []
    | some i => (fieldsOf r)[i]? = some r.command.key := by
  rw [fieldsOf]
  cases r.command with
  | store how => cases how <;> rfl
  | _ => rfl

theorem keyPlace_line {rest : List (List UInt8)} (h : r.command.args = r.command.key :: rest) :
    (memcachedSplitFields 0 [] r.line)[1]? = some (r.keyPlace, r.command.key) := by
  obtain ⟨places, hspl, rfl⟩ := splitFields_line r
  obtain ⟨places, hplaces⟩ := (splitFields_text r.written r.command.verb.length).2 r.command.key _
    (by rw [h]; rfl)
  rw [hspl, hplaces]
  rfl

variable (cr) in
theorem storagePayload_onTape
    (h : r.command.payload = some payload) (hrest : t.rest = payload ++ crlf ++ more) :
    onTape cr (memcachedConsumeStoragePayload (fieldsOf r) r.command.op) t =
      (true, (t.copied cr (payload.length + 2)).forward (payload.length + 2)) := by
  obtain ⟨hbs, hlt⟩ := bytesField_payload r h
  have hcnt : (payload ++ crlf).length = payload.length + 2 := by
    rw [length_append]
    rfl
  have hlong : payload.length + 2 ≤ t.rest.length := by
    rw [hrest, length_append]
    omega
  have hpeek : onTape cr (peek (payload.length + crlf.length)) t =
      (.ok (t.slice cr (payload.length + 2)), t.copied cr (payload.length + 2)) :=
    onTape_peek (zero_lt_succ _) hlong
  have hskip : onTape cr (skip (payload.length + crlf.length)) (t.copied cr (payload.length + 2)) =
      (.ok (), (t.copied cr (payload.length + 2)).forward (payload.length + 2)) :=
    onTape_skip hlong
  have hload : (t.copied cr (payload.length + 2)).memory.load (t.slice cr (payload.length + 2)) =
      payload ++ crlf := by
    rw [load_slice_copied cr hlong, hrest, ← hcnt, take_left]
  have hfits : ¬ (payload.length : Int) > 2 ^ 63 - 1 - crlf.length := by
    have hcrlf : crlf.length = 2 := rfl
    omega
  have hend : ¬ (payload ++ crlf).drop (payload.length : Int).toNat ≠ crlf := by
    rw [Int.toNat_natCast, drop_left]
    exact fun h => h rfl
  rw [memcachedConsumeStoragePayload, hbs]
  simp only []
  rw [if_neg hfits, onTape_then hpeek, onTape_then (onTape_load _ _), hload, if_neg hend,
    onTape_then hskip]
  rfl

/-- The key where it stands on the line. -/
theorem key_of_line {i : Nat} (h : (memcachedSplitFields 0 [] r.line)[i]? = some (place, w)) :
    (r.line.drop place).take w.length = w :=
  splitFields_place r.line 0 [] r.line rfl (zero_le _) nil_suffix _ (mem_of_getElem? h)

/-- A request without a data block. -/
theorem operationOf_plain {s : Slice UInt8} (hpay : r.command.payload = none)
    (hlooks : ¬ r.LooksNoreply) (hload : t.memory.load s = r.line) :
    onTape cr (operationOf s r.line) t = (some r.report, t) := by
  have hkey := keyField r
  have hnone := hasPayload r.command
  rw [hpay] at hnone
  rw [operationOf]
  simp only [fields_line, (requestOf_line r).2 hlooks, hnone, isSome_none, Bool.false_eq_true,
    if_false]
  rw [onTape_bind, onTape_pure]
  simp only [Bool.not_true, Bool.false_eq_true, if_false]
  cases hfield : memcachedCommandKeyField r.command.op with
  | none =>
    rw [hfield] at hkey
    rw [Request.report, hkey]
    rfl
  | some i =>
    rw [hfield] at hkey
    have hmap : ((memcachedSplitFields 0 [] r.line).map Prod.snd)[i]? = some r.command.key := by
      rw [fields_line]
      exact hkey
    rw [getElem?_map] at hmap
    obtain ⟨⟨place, w⟩, hplace, hw⟩ := map_eq_some_iff.mp hmap
    have hshown : t.memory.load (s.slice place (place + w.length)) = w := by
      rw [Scratch.load_slice, hload, Nat.add_sub_cancel_left, key_of_line r hplace]
    simp only [hplace, getD_some]
    rw [onTape_bind, onTape_load, hshown, Request.report, ← hw]
    rfl

/-- The part of a line under a block that was written over it. -/
theorem shown_part_iff {block : List UInt8} (hw : (line.drop place).take w.length = w) :
    (((block ++ line.drop block.length).take line.length).drop place).take w.length = w ↔
      (block.drop place).take w.length <+: w := by
  have hlen := congrArg length hw
  rw [length_take, length_drop] at hlen
  let under := (block.drop place).take w.length
  have hunder : under.length = min w.length (block.length - place) := by
    rw [length_take, length_drop]
  -- behind the block the line is seen
  have hbeh : ((line.drop block.length).drop (place - block.length)).take
      (w.length - (block.drop place).length) = w.drop under.length := by
    conv => rhs; rw [← hw]
    rw [drop_take, drop_drop, drop_drop, length_drop, hunder]
    rcases le_total w.length (block.length - place) with hle | hle
    · rw [min_eq_left hle, Nat.sub_self, Nat.sub_eq_zero_of_le hle, take_zero, take_zero]
    rw [min_eq_right hle]
    congr 2
    omega
  have hspl : (((block ++ line.drop block.length).take line.length).drop place).take w.length =
      under ++ w.drop under.length := by
    rw [drop_take, take_take, Nat.min_eq_left (by omega), drop_append, take_append, hbeh]
  rw [hspl, prefix_iff_eq_take]
  constructor
  · intro heq
    have htake := congrArg (take under.length) heq
    rw [take_left] at htake
    exact htake
  · intro heq
    change under = w.take under.length at heq
    conv => lhs; lhs; rw [heq]
    rw [take_append_drop]

variable (cr) in
/-- A request with a data block: the key is as it was sent unless the block was
written over it. -/
theorem operationOf_storage (hpay : r.command.payload = some payload) (hlooks : ¬ r.LooksNoreply)
    (hrest : t.rest = r.line ++ (crlf ++ (payload ++ crlf ++ more))) :
    ∃ key, onTape cr (operationOf ((t.copied cr (r.line.length + 2)).slice cr r.line.length) r.line)
        (behindLine cr r.line.length t) =
      (some ⟨r.command.op, key, r.noreply⟩,
        ((behindLine cr r.line.length t).copied cr (payload.length + 2)).forward
          (payload.length + 2)) ∧
      (key = r.command.key ↔ (r.Overwritten cr t.pos t.memory.cap → r.KeyShown)) := by
  obtain ⟨hfield, rest, hargs⟩ := storage_key hpay
  have hplace := keyPlace_line r hargs
  have hblk : r.block = payload ++ crlf := by rw [Request.block, hpay]
  have hcnt : r.block.length = payload.length + 2 := by
    rw [hblk, length_append]
    rfl
  have hsome : memcachedCommandHasPayload r.command.op = true := by
    rw [hasPayload, hpay]
    rfl
  have hcons := storagePayload_onTape cr r hpay (behindLine_rest cr hrest)
  have hlong : r.line.length + 2 ≤ t.rest.length := by
    rw [hrest, length_append, length_append]
    exact Nat.add_le_add_left (Nat.le_add_right ..) _
  have hmore : (payload ++ crlf ++ more).take r.block.length = r.block := by rw [hblk, take_left]
  have hover := load_line_over cr hrest (k := r.block.length)
    (by rw [← hblk, length_append]; exact Nat.le_add_right ..)
  rw [behindLine_cap hlong, hmore] at hover
  let s := (t.copied cr (r.line.length + 2)).slice cr r.line.length
  let t' := (behindLine cr r.line.length t).copied cr r.block.length
  refine ⟨t'.memory.load (s.slice r.keyPlace (r.keyPlace + r.command.key.length)), ?_, ?_⟩
  · rw [operationOf]
    simp only [fields_line, (requestOf_line r).2 hlooks, hsome, if_true]
    rw [onTape_bind, hcons]
    simp only [hfield, hplace]
    rw [← hcnt]
    rfl
  · have hwh := key_of_line r hplace
    rw [Scratch.load_slice, hover, Nat.add_sub_cancel_left]
    by_cases hboth : r.Overwritten cr t.pos t.memory.cap
    · rw [if_pos ⟨hboth.2.1, hboth.2.2.1, hboth.2.2.2⟩, shown_part_iff hwh]
      exact ⟨fun h _ => h, fun h => h hboth⟩
    have hno : ¬ (cr t.pos r.line.length = true ∧
        cr (t.pos + (r.line.length + 2)) r.block.length = true ∧
        r.block.length ≤ grown cr t.pos r.line.length
          (grown cr t.pos (r.line.length + 2) t.memory.cap)) := by
      rintro ⟨hline, hcross, hfits⟩
      refine hboth ⟨?_, hline, hcross, hfits⟩
      rw [ne_eq, ← length_eq_zero_iff, hcnt]
      exact succ_ne_zero _
    rw [if_neg hno]
    exact iff_of_true hwh fun h => absurd h hboth

/-! ## Captures -/

variable (cr) in
/-- What is parsed of the next request. -/
theorem parseRequest_onTape (hrest : t.rest = r.wire ++ more) :
    (r.LooksNoreply → ∃ t', onTape cr parseMemcachedRequestOperation t = (none, t')) ∧
      (¬ r.LooksNoreply → ∃ key t', onTape cr parseMemcachedRequestOperation t =
          (some ⟨r.command.op, key, r.noreply⟩, t') ∧
        (key = r.command.key ↔ (r.Overwritten cr t.pos t.memory.cap → r.KeyShown)) ∧
        t'.rest = more ∧ t'.pos = t.pos + r.wire.length ∧
        t'.memory.cap = if r.block = [] then r.lineCap cr t.pos t.memory.cap
          else grown cr (t.pos + (r.line.length + 2)) r.block.length
            (r.lineCap cr t.pos t.memory.cap)) := by
  have hrest' : t.rest = r.line ++ (crlf ++ (r.block ++ more)) := by
    rw [hrest, Request.wire]
    simp
  have hlong : r.line.length + 2 ≤ t.rest.length := by
    rw [hrest', length_append, length_append]
    exact Nat.add_le_add_left (Nat.le_add_right ..) _
  have hwire : r.wire.length = r.line.length + 2 + r.block.length := by
    rw [Request.wire, length_append, length_append]
    exact (add_assoc ..).symm
  let s := (t.copied cr (r.line.length + 2)).slice cr r.line.length
  have hload : (behindLine cr r.line.length t).memory.load s = r.line := by
    have hcopy := load_slice_copied cr (t := t.copied cr (r.line.length + 2))
      (show r.line.length ≤ t.rest.length by omega)
    have htake : t.rest.take r.line.length = r.line := by rw [hrest', take_left]
    exact hcopy.trans htake
  have hprs : onTape cr parseMemcachedRequestOperation t =
      onTape cr (operationOf s r.line) (behindLine cr r.line.length t) := by
    rw [parseMemcachedRequestOperation, onTape_then (readLine_onTape cr (request_line_no_cr r)
      (request_line_pos r) hrest'), onTape_then (onTape_load _ _), hload]
  rw [hprs]
  refine ⟨fun hlooks => ?_, fun hlooks => ?_⟩
  · rw [operationOf]
    simp only [fields_line, (requestOf_line r).1 hlooks]
    exact ⟨_, rfl⟩
  · cases hpay : r.command.payload with
    | none =>
      have hblk : r.block = [] := by rw [Request.block, hpay]
      refine ⟨r.command.key, behindLine cr r.line.length t,
        operationOf_plain r hpay hlooks hload, ?_, ?_, ?_, ?_⟩
      · exact iff_of_true rfl fun h => absurd hblk h.1
      · rw [behindLine_rest cr hrest', hblk]
        rfl
      · rw [hwire, hblk]
        rfl
      · rw [if_pos hblk]
        exact behindLine_cap hlong
    | some payload =>
      have hblk : r.block = payload ++ crlf := by rw [Request.block, hpay]
      have hcnt : r.block.length = payload.length + 2 := by
        rw [hblk, length_append]
        rfl
      have hne : r.block ≠ [] := by
        rw [ne_eq, ← length_eq_zero_iff, hcnt]
        exact succ_ne_zero _
      obtain ⟨key, hop, hkey⟩ := operationOf_storage cr r hpay hlooks (by rw [← hblk]; exact hrest')
      refine ⟨key, _, hop, hkey, ?_, ?_, ?_⟩
      · change (behindLine cr r.line.length t).rest.drop (payload.length + 2) = more
        rw [behindLine_rest cr hrest', ← hcnt, drop_left]
      · change (behindLine cr r.line.length t).pos + (payload.length + 2) = _
        rw [behindLine_pos]
        omega
      · rw [if_neg hne, hcnt]
        change ((behindLine cr r.line.length t).copied cr (payload.length + 2)).memory.cap = _
        rw [cap_copied, behindLine_cap hlong]
        · rfl
        · rw [behindLine_rest cr hrest', length_append, hcnt]
          exact Nat.le_add_right ..

theorem request_wire_pos : 0 < r.wire.length := by
  have hpos := request_line_pos r
  rw [Request.wire, length_append]
  omega

/-- What the loop does with the next request. -/
theorem requestsLoop_step (rounds : Nat) (ops : List MemcachedRequestOp)
    (hpos : 0 < t.rest.length) :
    onTape cr (requestsLoop (rounds + 1) ops) t =
      match onTape cr parseMemcachedRequestOperation t with
      | (none, t') => (none, t')
      | (some op, t') => onTape cr (requestsLoop rounds (ops ++ [op])) t' := by
  rw [requestsLoop, onTape_bind, onTape_remaining, if_pos (Int.natCast_pos.mpr hpos), onTape_bind]
  obtain ⟨result, t'⟩ := onTape cr parseMemcachedRequestOperation t
  cases result <;> rfl

/-- The operations that were found stay where they are. -/
theorem requestsLoop_keeps (rounds : Nat) (ops : List MemcachedRequestOp) (t : Tape)
    {result : MemcachedParseResult} (h : (onTape cr (requestsLoop rounds ops) t).1 = some result) :
    ops <+: result.ops := by
  induction rounds generalizing ops t with
  | zero =>
    obtain rfl := some.inj h
    exact prefix_refl _
  | succ rounds ih =>
    by_cases hpos : 0 < t.rest.length
    · rw [requestsLoop_step rounds ops hpos] at h
      split at h
      · cases h
      · next op t' _ => exact (prefix_append ops [op]).trans (ih _ _ h)
    rw [requestsLoop, onTape_bind, onTape_remaining, if_neg (by omega)] at h
    obtain rfl := some.inj h
    exact prefix_refl _

variable (cr) in
/-- The loop reports every request as it was sent if no key is lost, and only
then. -/
theorem requestsLoop_onTape (requests : List Request) (rounds : Nat) (ops : List MemcachedRequestOp)
    (t : Tape) (hrest : t.rest = requestsWire requests) (hrds : t.rest.length ≤ rounds) :
    (onTape cr (requestsLoop rounds ops) t).1 = some ⟨ops ++ requests.map Request.report, false⟩ ↔
      KeysKept cr t.pos t.memory.cap requests := by
  induction requests generalizing rounds ops t with
  | nil =>
    refine iff_of_true ?_ trivial
    rw [map_nil, append_nil]
    cases rounds with
    | zero => rfl
    | succ rounds =>
      rw [requestsLoop, onTape_bind, onTape_remaining, hrest]
      rfl
  | cons r requests ih =>
    rw [requestsWire, flatMap_cons] at hrest
    have hwire := request_wire_pos r
    have hlen := congrArg length hrest
    rw [length_append] at hlen
    obtain ⟨rounds, rfl⟩ := Nat.exists_eq_add_of_lt (show 0 < rounds by omega)
    rw [zero_add, requestsLoop_step rounds ops (by omega), KeysKept]
    by_cases hlooks : r.LooksNoreply
    · obtain ⟨t', hprs⟩ := (parseRequest_onTape cr r hrest).1 hlooks
      rw [hprs]
      exact iff_of_false (fun h => nomatch h) fun h => h.1 hlooks
    obtain ⟨key, t', hprs, hkey, hrest', hpos', hcap'⟩ := (parseRequest_onTape cr r hrest).2 hlooks
    rw [hprs, and_iff_right hlooks, ← hkey, ← hpos', ← hcap']
    have hrds' : t'.rest.length ≤ rounds := by
      rw [hrest']
      omega
    by_cases hsame : key = r.command.key
    · rw [and_iff_right hsame, ← ih rounds (ops ++ [r.report]) t' hrest' hrds', append_assoc, hsame]
      rfl
    refine iff_of_false (fun h => hsame ?_) fun h => hsame h.1
    have hprefix := (prefix_append_right_inj ops).mp (requestsLoop_keeps _ _ _ h)
    exact congrArg MemcachedRequestOp.key (cons_prefix_cons.mp hprefix).1

theorem token_line : memcachedToken r.line = r.command.verb := by
  have hlets : ∀ b ∈ r.command.verb, decide (b ≠ 32) = true := by
    intro b hb
    rw [decide_eq_true_eq]
    rintro rfl
    exact absurd (forall_mem_of_all (verb_letters r.command).2 32 hb) (by decide)
  rw [memcachedToken, Request.line, takeWhile_append_of_pos hlets]
  rcases spaced_head r.written with htext | ⟨rest, htext⟩
  · rw [htext, takeWhile_nil, append_nil]
  · rw [htext, takeWhile_cons_of_neg (by decide), append_nil]

/-- A request is not taken for a response. -/
theorem isResponse_onTape (hrest : t.rest = r.wire ++ more) :
    onTape cr isMemcachedResponseReader t = (false, t.copied cr (r.line.length + 2)) := by
  have hrest' : t.rest = r.line ++ (crlf ++ (r.block ++ more)) := by
    rw [hrest, Request.wire]
    simp
  obtain ⟨s, hfst, hload⟩ := firstLine_onTape cr (request_line_no_cr r) (request_line_pos r) hrest'
  rw [isMemcachedResponseReader, onTape_then hfst, onTape_then (onTape_load _ _), hload,
    line_not_numeric, token_line, (verb_command r.command).2.1]
  rfl

/-- A line that is looked at twice takes no more memory. -/
theorem keysKept_grown (requests : List Request) :
    KeysKept cr 0 (grown cr 0 (r.line.length + 2) 0) (r :: requests) ↔
      KeysKept cr 0 0 (r :: requests) := by
  have htwice : ∀ n cap, grown cr 0 n (grown cr 0 n cap) = grown cr 0 n cap := by
    intro n cap
    rw [grown, grown]
    split
    · rw [max_assoc, max_self]
    · rfl
  have hcap : r.lineCap cr 0 (grown cr 0 (r.line.length + 2) 0) = r.lineCap cr 0 0 := by
    rw [Request.lineCap, htwice]
    rfl
  rw [KeysKept, KeysKept, Request.Overwritten, Request.Overwritten, hcap]

/-- A capture of requests is read as it was sent if no key is lost under a data
block and no request ends in the word `noreply` without the option, and only
then. -/
theorem requests_read_iff (r : Request) (requests : List Request) (chunks : List (List UInt8))
    (hwire : chunks.flatten = requestsWire (r :: requests)) :
    parseMemcachedRequests.onReader (bufferOf chunks).newReader =
        some (some ⟨(r :: requests).map Request.report, false⟩) ↔
      KeysKept (crosses chunks) 0 0 (r :: requests) := by
  have hlong : r.line.length + 2 ≤ chunks.flatten.length := by
    rw [hwire, requestsWire, flatMap_cons, length_append, Request.wire,
      length_append, length_append]
    have hcrlf : crlf.length = 2 := rfl
    omega
  let t : Tape := ⟨0, chunks.flatten, Scratch.none⟩
  have hresp : onTape (crosses chunks) isMemcachedResponseReader t =
      (false, t.copied (crosses chunks) (r.line.length + 2)) :=
    isResponse_onTape r hwire
  have hloop := requestsLoop_onTape (crosses chunks) (r :: requests) chunks.flatten.length []
    (t.copied (crosses chunks) (r.line.length + 2)) hwire (le_rfl)
  rw [cap_copied hlong] at hloop
  rw [onReader_eq_onTape, some.injEq, parseMemcachedRequests, onTape_bind, hresp]
  exact hloop.trans (keysKept_grown r requests)

/-- `set key 0 0 9`, with nine bytes `a`. -/
def setKey : Request where
  command := .store .set (ascii "key") (ascii "0") (ascii "0") (ascii "9") (ascii "aaaaaaaaa")
  noreply := false
  text := ascii " key 0 0 9"
  valid := by
    have hzero : IsDecimal (ascii "0") := isDecimal_iff.mp (by decide)
    exact ⟨hzero, .inl hzero, isDecimal_iff.mp (by decide), by decide, by decide⟩
  allowed := fun h => nomatch h
  written := by
    have hword : ∀ w : List UInt8, w ≠ [] → w.all (fun b => decide (IsWordByte b)) = true →
        IsWord w := fun w hne hall => ⟨hne, forall_mem_of_all hall⟩
    have hspace : ∀ b ∈ [32], b = (32 : UInt8) := forall_mem_singleton.mpr rfl
    have h1 : Spaced ([32] ++ (ascii "9" ++ [])) [ascii "9"] :=
      .word (by decide) hspace (hword _ (by decide) (by decide)) (.spaces (forall_mem_nil _))
    have h2 := Spaced.word (by decide) hspace (hword (ascii "0") (by decide) (by decide)) h1
    have h3 := Spaced.word (by decide) hspace (hword (ascii "0") (by decide) (by decide)) h2
    exact Spaced.word (by decide) hspace (hword (ascii "key") (by decide) (by decide)) h3

/-- The line of the first request crosses the end of a chunk, the data block of the
second one does. -/
def setChunks : List (List UInt8) :=
  [ascii "set k", ascii "ey 0 0 9\r\naaaaaaaaa\r\nset key 0 0 9\r\naaaa", ascii "aaaaa\r\n"]

theorem requests_read_iff_whole :
    KeysKept (crosses setChunks) 0 0 [setKey, setKey] ∧
      parseMemcachedRequests.onReader (bufferOf setChunks).newReader =
        some (some ⟨[setKey, setKey].map Request.report, false⟩) := by
  have hkept : KeysKept (crosses setChunks) 0 0 [setKey, setKey] := by
    have hlast : ¬ setKey.LooksNoreply := fun h => absurd h.2 (by decide)
    refine ⟨hlast, fun h => ?_, hlast, fun h => ?_, trivial⟩
    · exact absurd h.2.2.1 (by decide +kernel)
    · exact absurd h.2.1 (by decide +kernel)
  exact ⟨hkept, (requests_read_iff setKey [setKey] setChunks (by decide +kernel)).mpr hkept⟩

/-- `get noreply`. -/
def getNoreply : Request where
  command := .get false (ascii "noreply") []
  noreply := false
  text := ascii " noreply"
  valid := trivial
  allowed := fun h => nomatch h
  written := by
    have hspace : ∀ b ∈ [32], b = (32 : UInt8) := forall_mem_singleton.mpr rfl
    have hword : IsWord (ascii "noreply") := ⟨by decide, forall_mem_of_all (by decide)⟩
    exact Spaced.word (by decide) hspace hword (.spaces (forall_mem_nil _))

/-- The data block takes the place of the key, and a key `noreply` is taken for
the option. -/
theorem key_lost_under_block :
    [ascii "se", ascii "t key 0 0 9\r\naa", ascii "aaaaaaa\r\n"].flatten = requestsWire [setKey] ∧
      setKey.report = ⟨.set, ascii "key", false⟩ ∧
      parseMemcachedRequests.onReader
          (bufferOf [ascii "se", ascii "t key 0 0 9\r\naa", ascii "aaaaaaa\r\n"]).newReader =
        some (some ⟨[⟨.set, ascii "aaa", false⟩], false⟩) ∧
      [ascii "get noreply\r\n"].flatten = requestsWire [getNoreply] ∧
      getNoreply.report = ⟨.get, ascii "noreply", false⟩ ∧
      parseMemcachedRequests.onReader (bufferOf [ascii "get noreply\r\n"]).newReader =
        some none := by
  refine ⟨by decide, rfl, by decide +kernel, by decide, rfl, by decide +kernel⟩

end Obi.Refine
