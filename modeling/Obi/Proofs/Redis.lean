import Obi.Lib.Incremental
import Obi.Spec.Text

/-!
# What is read of a stream of Redis commands

A command that is all there is read back, whatever its arguments are made of: its
strings are taken by their lengths. Of one that breaks off the strings that are
there are kept, once the first of them is.
-/

namespace Obi.Refine
open Lib Ref Spec.Resp List Command

/-! ## Lines -/

section
variable {line c : List UInt8}

/-- The first `\r\n` ends a line without `\r`. -/
theorem bytesIndex_line (h : 13 ∉ line) (t : List UInt8) :
    bytesIndex crlf (line ++ (crlf ++ t)) = some line.length := by
  induction line with
  | nil => rfl
  | cons b line ih =>
    obtain ⟨hb, hline⟩ := not_or.mp (mt mem_cons.mpr h)
    have hoth : crlf.isPrefixOf (b :: (line ++ (crlf ++ t))) = false := by
      rw [crlf, isPrefixOf, beq_false_of_ne hb, Bool.false_and]
    rw [cons_append, bytesIndex, hoth, ih hline]
    rfl

theorem bytesIndex_part (h : 13 ∉ line) (hc : ProperPart c (line ++ crlf)) :
    bytesIndex crlf c = none := by
  induction line generalizing c with
  | nil =>
    rcases hc.head with rfl | ⟨c, rfl, hnext⟩
    · rfl
    rcases hnext.head with rfl | ⟨c, rfl, hlast⟩
    · rfl
    · exact absurd hlast.length_lt (Nat.not_lt_zero _)
  | cons b line ih =>
    obtain ⟨hb, hline⟩ := not_or.mp (mt mem_cons.mpr h)
    rcases hc.head with rfl | ⟨c, rfl, hnext⟩
    · rfl
    have hoth : crlf.isPrefixOf (b :: c) = false := by
      rw [crlf, isPrefixOf, beq_false_of_ne hb, Bool.false_and]
    rw [bytesIndex, hoth, ih hline hnext]
    rfl

theorem respLine_line (h : 13 ∉ line) (t : List UInt8) :
    readRESPLine (line ++ (crlf ++ t)) = some (line, t) := by
  have hrest : (line ++ (crlf ++ t)).drop (line.length + crlf.length) = t := by
    rw [← append_assoc, ← length_append, drop_left]
  rw [readRESPLine, bytesIndex_line h]
  simp [hrest]

theorem respLine_part (h : 13 ∉ line) (hc : ProperPart c (line ++ crlf)) :
    readRESPLine c = none := by
  rw [readRESPLine, bytesIndex_part h hc]

end

/-! ## Numbers -/

variable {rest : List (List UInt8)} {cmds done : List Command} {read : List RedisCommand}
  {p : List UInt8} {n : Nat}

theorem respDigits_eq {w : List UInt8} (hdigs : ∀ c ∈ w, IsDigit c) (hsm : n ≤ 2 ^ 30) :
    respDigits n w = if digitsFrom n w ≤ 2 ^ 30 then some (digitsFrom n w) else none := by
  induction w generalizing n with
  | nil => exact (if_pos hsm).symm
  | cons c w ih =>
    obtain ⟨hc, hw⟩ := forall_mem_cons.mp hdigs
    have hdigit : ¬ (c < 48 ∨ 57 < c) := by
      rintro (hlow | hhigh)
      · exact absurd hc.1 (UInt8.not_le.mpr hlow)
      · exact absurd hc.2 (UInt8.not_le.mpr hhigh)
    rw [respDigits, if_neg hdigit, digitsFrom_cons]
    by_cases hbig : 2 ^ 30 < n * 10 + (c.toNat - 48)
    · have hmore := le_digitsFrom (n * 10 + (c.toNat - 48)) w
      rw [if_pos hbig, if_neg (by omega)]
    · rw [if_neg hbig]
      exact ih hw (by omega)

theorem respInt_decimal (n : Nat) :
    parseRESPInt (decimal n) = if n ≤ 2 ^ 30 then some (n : Int) else none := by
  have hdigs := decimal_isDigit (n := n)
  have hvalue := respDigits_eq hdigs (Nat.zero_le (2 ^ 30))
  rw [digitsFrom_decimal] at hvalue
  cases hw : decimal n with
  | nil => exact absurd hw (decimal_ne_nil n)
  | cons c w =>
    rw [hw] at hdigs hvalue
    have hsign : c ≠ 45 := by
      rintro rfl
      exact absurd (forall_mem_cons.mp hdigs).1 (by decide)
    rw [parseRESPInt, if_neg hsign, hvalue]
    split
    · rfl
    · rfl

/-- The line in front of an array or a string: a sign and a number. -/
theorem not_mem_numberLine {sign : UInt8} (hsign : sign ≠ 13) (n : Nat) : 13 ∉ sign :: decimal n :=
  mt mem_cons.mp (not_or.mpr ⟨hsign.symm, fun h => absurd (decimal_isDigit 13 h) (by decide)⟩)

theorem length_numberLine (sign : UInt8) (n : Nat) : ¬ (sign :: decimal n).length < 2 := by
  have hpos := length_pos_iff.mpr (decimal_ne_nil n)
  rw [length_cons]
  omega

/-! ## Strings -/

section
variable {tok c : List UInt8}

theorem bulk_eq (tok t : List UInt8) :
    bulk tok ++ t = (36 :: decimal tok.length) ++ (crlf ++ (tok ++ (crlf ++ t))) := by
  simp [bulk]

theorem readBulk_bulk (h : tok.length ≤ 2 ^ 30) (t : List UInt8) :
    readBulk (bulk tok ++ t) = some (tok, t) := by
  have hend : ¬ ((tok ++ (crlf ++ t)).length < tok.length + crlf.length ∨
      ((tok ++ (crlf ++ t)).drop tok.length).take crlf.length ≠ crlf) := by
    rw [drop_left, length_append, length_append]
    rintro (hsh | hoth)
    · omega
    · exact hoth rfl
  rw [bulk_eq, readBulk, respLine_line (not_mem_numberLine (by decide) _)]
  simp only [length_numberLine, head?_cons, ne_eq, not_true_eq_false, or_self, if_false,
    drop_one, tail_cons, respInt_decimal, if_pos h, Int.toNat_natCast]
  rw [if_neg (not_lt.mpr (Int.natCast_nonneg _)), if_neg hend, take_left,
    ← append_assoc, ← length_append, drop_left]

theorem readBulk_part (hc : ProperPart c (bulk tok)) : readBulk c = none := by
  have hspl : bulk tok = ((36 :: decimal tok.length) ++ crlf) ++ (tok ++ crlf) := by simp [bulk]
  have hline : 13 ∉ 36 :: decimal tok.length := not_mem_numberLine (by decide) _
  rw [hspl] at hc
  rcases hc.append with hpart | ⟨c', rfl, hpart⟩
  · rw [readBulk, respLine_part hline hpart]
  have hsh := hpart.length_lt
  rw [length_append] at hsh
  rw [readBulk, append_assoc, respLine_line hline]
  simp only [length_numberLine, head?_cons, ne_eq, not_true_eq_false, or_self, if_false,
    drop_one, tail_cons, respInt_decimal]
  by_cases hsize : tok.length ≤ 2 ^ 30
  · simp only [if_pos hsize]
    rw [if_neg (not_lt.mpr (Int.natCast_nonneg _)), if_pos (.inl hsh)]
  · rw [if_neg hsize]

end

/-! ## Words -/

/-- What is known when the command and some arguments are read. -/
def tokensOf (op : List UInt8) (args : List (List UInt8)) : RedisTokens :=
  ⟨op, !args.all isPrintableToken, commandText op args⟩

theorem commandText_eq (op : List UInt8) (args : List (List UInt8)) :
    commandText op args = op ++ (args.takeWhile isPrintableToken).flatMap fun a => 32 :: a := by
  rw [commandText]
  induction args.takeWhile isPrintableToken generalizing op with
  | nil => simp
  | cons a args ih =>
    rw [intercalate_cons_cons, ih, append_assoc]
    rfl

theorem takeWhile_concat (args : List (List UInt8)) (a : List UInt8) :
    (args ++ [a]).takeWhile isPrintableToken = args.takeWhile isPrintableToken ++
      if args.all isPrintableToken && isPrintableToken a then [a] else [] := by
  induction args with
  | nil => cases ha : isPrintableToken a <;> simp [ha]
  | cons b args ih => cases hb : isPrintableToken b <;> simp [hb, ih]

theorem add_command {op : List UInt8} (h : isRedisCommandToken op = true) :
    RedisTokens.add ⟨[], false, []⟩ 0 op = some (tokensOf op []) := by
  rw [RedisTokens.add, if_pos h, tokensOf, commandText_eq]
  simp

theorem add_argument (op : List UInt8) (args : List (List UInt8)) (i : Nat) (a : List UInt8) :
    (tokensOf op args).add (i + 1) a = some (tokensOf op (args ++ [a])) := by
  rw [RedisTokens.add, tokensOf, tokensOf, commandText_eq,
    commandText_eq, takeWhile_concat, all_append]
  cases hall : args.all isPrintableToken with
  | false => simp
  | true =>
    cases ha : isPrintableToken a with
    | false | true => simp [ha]

/-! ## Commands -/

section
variable {op c : List UInt8} {cmd : Command}

theorem readTokens_arguments (h : ∀ a ∈ rest, a.length ≤ 2 ^ 30)
    (args : List (List UInt8)) (i : Nat) (t : List UInt8) :
    readTokens rest.length (i + 1) (tokensOf op args) (rest.flatMap bulk ++ t) =
      (some ⟨op, commandText op (args ++ rest)⟩, some t) := by
  induction rest generalizing args i with
  | nil =>
    rw [append_nil]
    rfl
  | cons a rest ih =>
    obtain ⟨ha, hrest⟩ := forall_mem_cons.mp h
    rw [length_cons, readTokens, flatMap_cons, append_assoc, readBulk_bulk ha]
    simp only [add_argument]
    rw [ih hrest, append_assoc, singleton_append]

/-- Of the arguments that break off, those that are there are kept. -/
theorem readTokens_part (hop : op ≠ [])
    (h : ∀ a ∈ rest, a.length ≤ 2 ^ 30) (args : List (List UInt8)) (i : Nat)
    (hc : ProperPart c (rest.flatMap bulk)) :
    ∃ more, more <+: rest ∧ readTokens rest.length (i + 1) (tokensOf op args) c =
      (some ⟨op, commandText op (args ++ more)⟩, none) := by
  induction rest generalizing args i c with
  | nil => exact absurd hc.length_lt (Nat.not_lt_zero _)
  | cons a rest ih =>
    obtain ⟨ha, hrest⟩ := forall_mem_cons.mp h
    rcases hc.append with hpart | ⟨c', rfl, hpart⟩
    · refine ⟨[], nil_prefix, ?_⟩
      have hsalvage : salvageRedisCommand (tokensOf op args) = some ⟨op, commandText op args⟩ :=
        if_neg (mt List.isEmpty_iff.mp hop)
      rw [length_cons, readTokens, readBulk_part hpart, append_nil, hsalvage]
    obtain ⟨more, hmore, hread⟩ := ih hrest (args ++ [a]) (i + 1) hpart
    refine ⟨a :: more, cons_prefix_cons.mpr ⟨rfl, hmore⟩, ?_⟩
    rw [length_cons, readTokens, readBulk_bulk ha]
    simp only [add_argument]
    rw [hread, append_assoc, singleton_append]

theorem op_ne_nil (cmd : Command) : cmd.op ≠ [] := by
  intro h
  have hop := cmd.isOp
  rw [h] at hop
  cases hop

/-- Behind the header the strings are read. -/
theorem redisCommand_header (hn : n + 1 ≤ 2 ^ 30) (t : List UInt8) :
    parseRedisCommand ((42 :: decimal (n + 1)) ++ (crlf ++ t)) =
      readTokens (n + 1) 0 ⟨[], false, []⟩ t := by
  rw [parseRedisCommand, respLine_line (not_mem_numberLine (by decide) _)]
  simp only [length_numberLine, head?_cons, ne_eq, not_true_eq_false, or_self, if_false,
    drop_one, tail_cons, respInt_decimal, if_pos hn, Int.toNat_natCast]
  rw [if_neg (by omega)]

theorem encode_eq (cmd : Command) (t : List UInt8) : cmd.encode ++ t =
    (42 :: decimal (cmd.args.length + 1)) ++
      (crlf ++ (bulk cmd.op ++ (cmd.args.flatMap bulk ++ t))) := by
  simp [encode, tokens]

theorem redisCommand_encode (h : cmd.Sized) (t : List UInt8) :
    parseRedisCommand (cmd.encode ++ t) = (some cmd.view, some t) := by
  obtain ⟨hop, hargs⟩ := forall_mem_cons.mp h.2
  rw [encode_eq, redisCommand_header h.1, readTokens, readBulk_bulk hop]
  simp only [add_command cmd.isOp]
  rw [readTokens_arguments hargs, nil_append, view]

theorem redisCommand_part (h : cmd.Sized) (hc : ProperPart c cmd.encode) :
    parseRedisCommand c = (none, none) ∨ ∃ args, args <+: cmd.args ∧
      parseRedisCommand c = (some ⟨cmd.op, commandText cmd.op args⟩, none) := by
  obtain ⟨hop, hargs⟩ := forall_mem_cons.mp h.2
  have hspl : cmd.encode = ((42 :: decimal (cmd.args.length + 1)) ++ crlf) ++
      (bulk cmd.op ++ cmd.args.flatMap bulk) := by
    rw [← append_nil cmd.encode, encode_eq]
    simp
  rw [hspl] at hc
  rcases hc.append with hpart | ⟨c', rfl, hpart⟩
  · refine .inl ?_
    rw [parseRedisCommand, respLine_part (not_mem_numberLine (by decide) _) hpart]
  rw [append_assoc, redisCommand_header h.1, readTokens]
  rcases hpart.append with hfst | ⟨c'', rfl, hmore⟩
  · refine .inl ?_
    rw [readBulk_part hfst]
    rfl
  obtain ⟨args, hargs', hread⟩ := readTokens_part (op_ne_nil cmd) hargs [] 0 hmore
  refine .inr ⟨args, hargs', ?_⟩
  rw [readBulk_bulk hop]
  simp only [add_command cmd.isOp]
  rw [hread, nil_append]

end

/-! ## Streams -/

/-- What is read of the beginning of a stream: its commands, and what is there of
the one it ends in. -/
structure ReadCommands (cmds done rest : List Command) (p : List UInt8)
    (read : List RedisCommand) : Prop where
  split : cmds = done ++ rest
  whole : encodeAll done <+: p
  ends : ∀ c ∈ rest.head?, ¬ encodeAll (done ++ [c]) <+: p
  read : read = done.map view ∨ ∃ c args, rest.head? = some c ∧ args <+: c.args ∧
    read = done.map view ++ [⟨c.op, commandText c.op args⟩]

theorem encodeAll_cons (c : Command) (cmds : List Command) :
    encodeAll (c :: cmds) = c.encode ++ encodeAll cmds := flatMap_cons

theorem ReadCommands.cons {rest : List Command}
    (h : ReadCommands cmds done rest p read) (c : Command) :
    ReadCommands (c :: cmds) (c :: done) rest (c.encode ++ p) (c.view :: read) where
  split := by rw [h.split, cons_append]
  whole := by
    rw [encodeAll_cons, prefix_append_right_inj]
    exact h.whole
  ends d hd := by
    rw [cons_append, encodeAll_cons, prefix_append_right_inj]
    exact h.ends d hd
  read := by
    rcases h.read with rfl | ⟨d, args, hd, hargs, rfl⟩
    · exact .inl rfl
    · exact .inr ⟨d, args, hd, hargs, rfl⟩

theorem redisCommandLoop_reads (h : ∀ c ∈ cmds, c.Sized)
    (hp : p <+: encodeAll cmds) {rounds : Nat} (hrds : p.length ≤ rounds) :
    ∃ done rest, ReadCommands cmds done rest p (redisCommandLoop rounds p) := by
  induction cmds generalizing p rounds with
  | nil =>
    obtain rfl := prefix_nil.mp hp
    refine ⟨[], [], rfl, nil_prefix, fun c hc => (nomatch hc), .inl ?_⟩
    cases rounds with
    | zero | succ rounds => rfl
  | cons c cmds ih =>
    obtain ⟨hc, hcmds⟩ := forall_mem_cons.mp h
    by_cases hwh : c.encode <+: p
    · obtain ⟨p, rfl⟩ := hwh
      have hlen : (c.encode ++ p).length = c.encode.length + p.length := length_append
      have hpos : 0 < c.encode.length := Nat.succ_pos _
      obtain ⟨rounds, rfl⟩ : ∃ k, rounds = k + 1 := ⟨rounds - 1, by omega⟩
      obtain ⟨done, rest, hread⟩ := ih hcmds ((prefix_append_right_inj _).mp hp)
        (show p.length ≤ rounds by omega)
      have hloop : redisCommandLoop (rounds + 1) (c.encode ++ p) =
          c.view :: redisCommandLoop rounds p := by
        rw [redisCommandLoop, redisCommand_encode hc]
        rfl
      rw [hloop]
      exact ⟨c :: done, rest, hread.cons c⟩
    · have hpart : ProperPart p c.encode := by
        obtain ⟨t, ht⟩ := hp
        rcases append_eq_append_iff.mp ht with ⟨d, hd, -⟩ | ⟨d, hd, -⟩
        · refine ⟨⟨d, hd.symm⟩, fun heq => hwh ?_⟩
          rw [heq]
        · exact absurd ⟨d, hd.symm⟩ hwh
      refine ⟨[], c :: cmds, rfl, nil_prefix, ?_, ?_⟩
      · rintro d hd
        cases hd
        rw [nil_append, encodeAll, flatMap_singleton]
        exact hwh
      · cases p with
        | nil =>
          refine .inl ?_
          cases rounds with
          | zero | succ rounds => rfl
        | cons b p =>
          obtain ⟨rounds, rfl⟩ : ∃ k, rounds = k + 1 :=
            ⟨rounds - 1, by rw [length_cons] at hrds; omega⟩
          have hhead : b = 42 := (cons_prefix_cons.mp hpart.1).1
          rw [redisCommandLoop]
          subst hhead
          rcases redisCommand_part hc hpart with hnone | ⟨args, hargs, hsome⟩
          · rw [hnone]
            exact .inl rfl
          · rw [hsome]
            exact .inr ⟨c, args, rfl, hargs, rfl⟩

theorem reads_all {rest : List Command}
    (h : ReadCommands cmds done rest (encodeAll cmds) read) : read = cmds.map view := by
  cases rest with
  | nil =>
    rw [h.split, append_nil]
    rcases h.read with rfl | ⟨c, args, hc, -⟩
    · rfl
    · cases hc
  | cons c rest =>
    have hall : encodeAll cmds = encodeAll (done ++ [c]) ++ encodeAll rest := by
      rw [h.split]
      simp [encodeAll]
    exact absurd ⟨_, hall.symm⟩ (h.ends c rfl)

/-- The commands of a stream are read back; of the beginning of one, those that
are there, and what is there of the next one. -/
theorem redis_commands_read_back (cmds : List Command) (h : ∀ c ∈ cmds, c.Sized) :
    parseRedisCommands (encodeAll cmds) = cmds.map view ∧
    ∀ p, p <+: encodeAll cmds → ∃ done rest, cmds = done ++ rest ∧ encodeAll done <+: p ∧
      (∀ c ∈ rest.head?, ¬ encodeAll (done ++ [c]) <+: p) ∧
      (parseRedisCommands p = done.map view ∨ ∃ c args, rest.head? = some c ∧ args <+: c.args ∧
          parseRedisCommands p = done.map view ++ [⟨c.op, commandText c.op args⟩]) := by
  constructor
  · obtain ⟨done, rest, hread⟩ := redisCommandLoop_reads h (prefix_refl _) (le_rfl)
    exact reads_all hread
  · intro p hp
    obtain ⟨done, rest, hread⟩ := redisCommandLoop_reads h hp (le_rfl)
    exact ⟨done, rest, hread.split, hread.whole, hread.ends, hread.read⟩

/-- `GET k`, and `SET k` of a value that cannot be printed. -/
def getAndSet : List Command :=
  [⟨ascii "GET", [ascii "k"], by decide⟩, ⟨ascii "SET", [ascii "k", [13, 10, 42]], by decide⟩]

theorem redis_commands_read_back_get_set : (∀ c ∈ getAndSet, c.Sized) ∧
    parseRedisCommands (encodeAll getAndSet) =
      [⟨ascii "GET", ascii "GET k"⟩, ⟨ascii "SET", ascii "SET k"⟩] := by
  have hsized : ∀ c ∈ getAndSet, c.Sized := by
    intro c hc
    rcases mem_cons.mp hc with rfl | hc
    · exact ⟨by decide, by decide⟩
    · obtain rfl := mem_singleton.mp hc
      exact ⟨by decide, by decide⟩
  exact ⟨hsized, (redis_commands_read_back getAndSet hsized).1⟩

/-- A command of more strings than that is not read. -/
theorem redisCommands_long (cmd : Command) (h : 2 ^ 30 < cmd.args.length + 1) :
    parseRedisCommands (encodeAll [cmd]) = [] := by
  have hnone : parseRedisCommand (cmd.encode ++ []) = (none, none) := by
    rw [encode_eq, parseRedisCommand, respLine_line (not_mem_numberLine (by decide) _)]
    simp only [length_numberLine, head?_cons, ne_eq, not_true_eq_false, or_self, if_false,
      drop_one, tail_cons, respInt_decimal, if_neg (not_le.mpr h)]
  rw [append_nil] at hnone
  rw [parseRedisCommands, encodeAll, flatMap_singleton]
  cases cmd.encode.length with
  | zero => rfl
  | succ rounds =>
    rw [redisCommandLoop, hnone]
    split
    · rfl
    · rfl

/-- `DEL` of `n` keys, all empty. -/
def delCommand (n : Nat) : Command := ⟨ascii "DEL", List.replicate n [], by decide⟩

theorem redis_long_command_lost : (∀ a ∈ (delCommand (2 ^ 30)).args, a.length < 2 ^ 30) ∧
    parseRedisCommands (encodeAll [delCommand (2 ^ 30)]) ≠ [delCommand (2 ^ 30)].map view := by
  have hargs : ∀ n, ∀ a ∈ (delCommand n).args, a = [] := fun n a ha => eq_of_mem_replicate ha
  have hcnt : ∀ n, (delCommand n).args.length = n := fun n => length_replicate
  constructor
  · intro a ha
    rw [hargs _ a ha]
    exact Nat.two_pow_pos 30
  · rw [redisCommands_long _ (by rw [hcnt]; exact Nat.lt_succ_self _)]
    exact cons_ne_nil _ _ ∘ Eq.symm

end Obi.Refine
