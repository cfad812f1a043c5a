import Obi.Spec.Hpack

/-!
# Huffman coded strings are decoded

A code leads through the tree in whole bytes and ends in a part of one: all
children that begin with that part are its leaf. As no code begins with another,
what is added for one code is not in the way of another. So in the tree of all
codes each of them is found, and the loops of the decoder, which hold back less
than a byte of the bits they are given, put out the symbols one by one.
-/

namespace Obi.Refine
open Lib Ref.Bhpack Spec.Hpack List HuffmanState UInt8 Nat

/-! ## Codes below a node -/

section
variable {sym sym' : UInt8} {n : Node} {path path' : List UInt8} {tail tail' : List Bool}

/-- A code as it is looked up: whole bytes, and the bits that are left. -/
def pathBits (path : List UInt8) (tail : List Bool) : List Bool := path.flatMap byteBits ++ tail

/-- From the node the code leads to the leaf of its symbol. -/
def Finds (sym : UInt8) (tail : List Bool) : Node → List UInt8 → Prop
  | n, [] => ∀ i, tail <+: byteBits i → n.child i = .leaf tail.length sym
  | n, i :: path => ∃ children, n.child i = .internal children ∧
      Finds sym tail (.internal children) path

/-- No leaf is in the way of the code. -/
def Clear : Node → List UInt8 → Prop
  | _, [] => True
  | n, i :: path => n.child i = .nil ∨
      ∃ children, n.child i = .internal children ∧ Clear (.internal children) path

/-- The node below which a code goes on. -/
def nodeBelow (n : Node) (i : UInt8) : Node := match n.child i with
  | .nil => newInternalNode
  | n => n

/-- A code is added along its path. -/
def addPath (sym : UInt8) (tail : List Bool) : List UInt8 → Node → Node
  | [], n => .internal fun j =>
    if tail <+: byteBits j then .leaf tail.length sym else n.child j
  | i :: path, n => n.setChild i (addPath sym tail path (nodeBelow n i))

/-- Neither code begins with the other. -/
def Apart (a b : List Bool) : Prop := ¬ a <+: b ∧ ¬ b <+: a

theorem addPath_internal (sym : UInt8) (tail : List Bool) (path : List UInt8) (n : Node) :
    ∃ children, addPath sym tail path n = .internal children := by
  cases path with
  | nil | cons i path => exact ⟨_, rfl⟩

theorem child_addPath_nil (j : UInt8) : (addPath sym tail [] n).child j =
      if tail <+: byteBits j then .leaf tail.length sym else n.child j := rfl

theorem child_addPath_cons (i j : UInt8) : (addPath sym tail (i :: path) n).child j =
      if j = i then addPath sym tail path (nodeBelow n i) else n.child j := rfl

theorem clear_newInternalNode (path : List UInt8) : Clear newInternalNode path := by
  cases path with
  | nil => trivial
  | cons i path => exact .inl rfl

variable {i : UInt8}

theorem clear_nodeBelow (h : Clear n (i :: path)) : Clear (nodeBelow n i) path := by
  rw [nodeBelow]
  rcases h with hnil | ⟨children, hchild, hclr⟩
  · rw [hnil]
    exact clear_newInternalNode path
  · rw [hchild]
    exact hclr

/-- A code that is added is found. -/
theorem finds_addPath (h : Clear n path) : Finds sym tail (addPath sym tail path n) path := by
  induction path generalizing n with
  | nil =>
    intro i hi
    rw [child_addPath_nil, if_pos hi]
  | cons i path ih =>
    obtain ⟨children, hnext⟩ := addPath_internal sym tail path (nodeBelow n i)
    refine ⟨children, ?_, ?_⟩
    · rw [child_addPath_cons, if_pos rfl, hnext]
    · rw [← hnext]
      exact ih (clear_nodeBelow h)

theorem Apart.cons (h : Apart (pathBits (i :: path) tail) (pathBits (i :: path') tail')) :
    Apart (pathBits path tail) (pathBits path' tail') := by
  simpa only [Apart, pathBits, flatMap_cons, append_assoc, prefix_append_right_inj] using h

theorem prefix_pathBits_cons (h : tail <+: byteBits i) :
    pathBits [] tail <+: pathBits (i :: path') tail' := by
  exact h.trans (prefix_append _ _)

/-- What is added for another code does not touch the child a code goes to. -/
theorem child_addPath_of_apart (sym' : UInt8) (n : Node)
    (h : Apart (pathBits (i :: path) tail) (pathBits path' tail')) :
    (addPath sym' tail' path' n).child i = n.child i ∨
      ∃ rest, path' = i :: rest ∧ Apart (pathBits path tail) (pathBits rest tail') := by
  cases path' with
  | nil =>
    refine .inl ?_
    rw [child_addPath_nil, if_neg fun hpre => h.2 (prefix_pathBits_cons hpre)]
  | cons i' rest =>
    by_cases hi : i = i'
    · subst hi
      exact .inr ⟨rest, rfl, h.cons⟩
    · refine .inl ?_
      rw [child_addPath_cons, if_neg hi]

theorem Finds.addPath (hfinds : Finds sym tail n path)
    (h : Apart (pathBits path tail) (pathBits path' tail')) :
    Finds sym tail (addPath sym' tail' path' n) path := by
  induction path generalizing n path' with
  | nil =>
    intro i hi
    cases path' with
    | nil =>
      rw [child_addPath_nil, if_neg]
      · exact hfinds i hi
      intro hpre
      rcases prefix_or_prefix_of_prefix hi hpre with hpre | hpre
      · exact h.1 hpre
      · exact h.2 hpre
    | cons i' rest =>
      have hne : i ≠ i' := by
        rintro rfl
        exact h.1 (prefix_pathBits_cons hi)
      rw [child_addPath_cons, if_neg hne]
      exact hfinds i hi
  | cons i path ih =>
    obtain ⟨children, hchild, hrest⟩ := hfinds
    rcases child_addPath_of_apart sym' n h with hsame | ⟨rest, rfl, happart⟩
    · exact ⟨children, hsame.trans hchild, hrest⟩
    obtain ⟨children', hnext⟩ := addPath_internal sym' tail' rest (nodeBelow n i)
    refine ⟨children', ?_, ?_⟩
    · rw [child_addPath_cons, if_pos rfl, hnext]
    · rw [← hnext, nodeBelow, hchild]
      exact ih hrest happart

theorem Clear.addPath (hclr : Clear n path)
    (h : Apart (pathBits path tail) (pathBits path' tail')) :
    Clear (addPath sym' tail' path' n) path := by
  induction path generalizing n path' with
  | nil => trivial
  | cons i path ih =>
    rcases child_addPath_of_apart sym' n h with hsame | ⟨rest, rfl, happart⟩
    · rw [Clear, hsame]
      exact hclr
    obtain ⟨children', hnext⟩ := addPath_internal sym' tail' rest (nodeBelow n i)
    refine .inr ⟨children', ?_, ?_⟩
    · rw [child_addPath_cons, if_pos rfl, hnext]
    · rw [← hnext]
      exact ih (clear_nodeBelow hclr) happart

end

/-! ## The tree of all codes -/

section

theorem addCode_finish (sym : UInt8) {code codeLen : Nat} (hlen : codeLen ≤ 8) (n : Node) :
    addCode.finish sym code codeLen n = addPath sym (toBits codeLen code) [] n := by
  have hstart : (ofNat (code <<< (8 - codeLen))).toNat =
      code % 2 ^ codeLen * 2 ^ (8 - codeLen) := by
    rw [toNat_ofNat', shiftLeft_eq]
    have hpow : 2 ^ 8 = 2 ^ codeLen * 2 ^ (8 - codeLen) := by
      rw [← pow_add, show codeLen + (8 - codeLen) = 8 by omega]
    rw [hpow, mul_mod_mul_right]
  have hrange : ∀ j : UInt8, (code % 2 ^ codeLen * 2 ^ (8 - codeLen) ≤ j.toNat ∧
        j.toNat < code % 2 ^ codeLen * 2 ^ (8 - codeLen) + 1 <<< (8 - codeLen)) ↔
      toBits codeLen code <+: byteBits j := by
    intro j
    rw [toBits_prefix_byte hlen, Nat.div_eq_iff (Nat.two_pow_pos _)]
    have hpos := Nat.two_pow_pos (8 - codeLen)
    omega
  rw [addCode.finish, Node.fill]
  congr 1
  funext j
  simp [hstart, hrange]

/-- The loop that adds a code follows its path. -/
theorem addCode_eq (sym : UInt8) (code codeLen : Nat) {levels : Nat} (hpos : 0 < codeLen)
    (hlevels : codeLen < 8 * (levels + 1)) :
    ∃ path tail, toBits codeLen code = pathBits path tail ∧ tail ≠ [] ∧ tail.length ≤ 8 ∧
      ∀ n, addCode sym code levels codeLen n = addPath sym tail path n := by
  have hsh : codeLen ≤ 8 → toBits codeLen code ≠ [] ∧ (toBits codeLen code).length ≤ 8 := by
    intro hlen
    rw [← length_pos_iff, length_toBits]
    exact ⟨hpos, hlen⟩
  induction levels generalizing codeLen with
  | zero =>
    obtain ⟨hne, hlen⟩ := hsh (by omega)
    exact ⟨[], toBits codeLen code, rfl, hne, hlen, fun n => addCode_finish sym (by omega) n⟩
  | succ levels ih =>
    by_cases hlong : codeLen > 8
    · obtain ⟨path, tail, hbits, hne, hlen, hadd⟩ := ih (codeLen - 8) (by omega) (by omega)
        fun hle => by
          rw [← length_pos_iff, length_toBits]
          omega
      refine ⟨ofNat (code >>> (codeLen - 8)) :: path, tail, ?_, hne, hlen, fun n => ?_⟩
      · rw [pathBits, flatMap_cons, append_assoc, ← pathBits, ← hbits, byteBits_ofNat,
          ← toBits_add, show 8 + (codeLen - 8) = codeLen by omega]
      · rw [addCode, if_pos hlong]
        simp only [hadd]
        rfl
    · obtain ⟨hne, hlen⟩ := hsh (by omega)
      refine ⟨[], toBits codeLen code, rfl, hne, hlen, fun n => ?_⟩
      rw [addCode, if_neg hlong]
      exact addCode_finish sym (by omega) n

/-- The code is found from the node, however it is cut into bytes. -/
def Found (n : Node) (sym : UInt8) (bits : List Bool) : Prop :=
  ∃ path tail, bits = pathBits path tail ∧ tail ≠ [] ∧ tail.length ≤ 8 ∧ Finds sym tail n path

def ClearFor (n : Node) (bits : List Bool) : Prop :=
  ∀ path tail, bits = pathBits path tail → Clear n path

/-- An entry of the two tables, and the symbol it is for. -/
def entryBits (entry : (Nat × Nat) × Nat) : List Bool := toBits entry.1.2 entry.1.1

def addEntry (root : Node) (entry : (Nat × Nat) × Nat) : Node :=
  addCode (ofNat entry.2) entry.1.1 (entry.1.2 / 8) entry.1.2 root

theorem found_foldl {entries : List ((Nat × Nat) × Nat)} (hpos : ∀ x ∈ entries, 0 < x.1.2)
    (hapart : entries.Pairwise fun a b => Apart (entryBits a) (entryBits b)) {n : Node}
    (hclr : ∀ x ∈ entries, ClearFor n (entryBits x)) :
    (∀ x ∈ entries, Found (entries.foldl addEntry n) (ofNat x.2) (entryBits x)) ∧
      ∀ sym bits, Found n sym bits → (∀ x ∈ entries, Apart bits (entryBits x)) →
        Found (entries.foldl addEntry n) sym bits := by
  induction entries generalizing n with
  | nil => exact ⟨fun x hx => absurd hx not_mem_nil, fun sym bits hfnd _ => hfnd⟩
  | cons x entries ih =>
    obtain ⟨hx, hents⟩ := forall_mem_cons.mp hpos
    obtain ⟨hxapart, hrest⟩ := pairwise_cons.mp hapart
    obtain ⟨path, tail, hbits, hne, hlen, hadd⟩ :=
      addCode_eq (ofNat x.2) x.1.1 x.1.2 hx (lt_mul_div_succ x.1.2 (by decide))
    have hnext : addEntry n x = addPath (ofNat x.2) tail path n := hadd n
    have hstep : ∀ y ∈ entries, ClearFor (addEntry n x) (entryBits y) := by
      intro y hy path' tail' hy'
      have hxy := hxapart y hy
      rw [entryBits, hbits, hy'] at hxy
      have hyx : Apart (pathBits path' tail') (pathBits path tail) := ⟨hxy.2, hxy.1⟩
      rw [hnext]
      exact (hclr y (mem_cons_of_mem _ hy) path' tail' hy').addPath hyx
    obtain ⟨hall, hkp⟩ := ih hents hrest hstep
    refine ⟨fun y hy => ?_, fun sym bits hfnd hbitsApart => ?_⟩
    · rcases mem_cons.mp hy with rfl | hy
      · refine hkp _ _ ⟨path, tail, hbits, hne, hlen, ?_⟩ hxapart
        rw [hnext]
        exact finds_addPath (hclr y mem_cons_self path tail hbits)
      · exact hall y hy
    · obtain ⟨hbx, hbrest⟩ := forall_mem_cons.mp hbitsApart
      refine hkp sym bits ?_ hbrest
      obtain ⟨path', tail', rfl, hne', hlen', hfinds⟩ := hfnd
      refine ⟨path', tail', rfl, hne', hlen', ?_⟩
      rw [hnext]
      refine hfinds.addPath ?_
      rwa [entryBits, hbits] at hbx

/-! ### No code begins with another -/

/-- The codes, as ranges of numbers of thirty bits. -/
def codeRange (c : Nat × Nat) : Nat × Nat := (c.1 * 2 ^ (30 - c.2), (c.1 + 1) * 2 ^ (30 - c.2))

def rangesApart (a b : Nat × Nat) : Bool := ble a.2 b.1 || ble b.2 a.1

def allApart : List (Nat × Nat) → Bool
  | [] => true
  | a :: ranges => ranges.all (rangesApart a) && allApart ranges

theorem allApart_pairwise {ranges : List (Nat × Nat)} (h : allApart ranges = true) :
    ranges.Pairwise fun a b => rangesApart a b = true := by
  induction ranges with
  | nil => exact .nil
  | cons a ranges ih =>
    rw [allApart, Bool.and_eq_true, all_eq_true] at h
    exact .cons h.1 (ih h.2)

theorem codes_ranges_apart : allApart ((huffmanCodes.zip huffmanCodeLen).map codeRange) = true := by
  decide +kernel

theorem codes_bounded :
    ∀ c ∈ huffmanCodes.zip huffmanCodeLen, 0 < c.2 ∧ c.2 ≤ 30 ∧ c.1 < 2 ^ c.2 := by
  decide +kernel

/-- The range of a code is within that of a code it begins with. -/
theorem range_within {c d len len' : Nat} (hlen : len' ≤ 30) (hc : c < 2 ^ len) (hd : d < 2 ^ len')
    (h : toBits len c <+: toBits len' d) :
    c * 2 ^ (30 - len) ≤ d * 2 ^ (30 - len') ∧
      (d + 1) * 2 ^ (30 - len') ≤ (c + 1) * 2 ^ (30 - len) := by
  have hle : len ≤ len' := by
    have hlength := h.length_le
    rwa [length_toBits, length_toBits] at hlength
  have hfrt : c = d / 2 ^ (len' - len) := by
    rw [prefix_iff_eq_take, length_toBits, show len' = len + (len' - len) by omega, toBits_add,
      take_left' (length_toBits _ _), toBits_inj, mod_eq_of_lt hc, shiftRight_eq_div_pow] at h
    rw [h, mod_eq_of_lt]
    rw [div_lt_iff_lt_mul (Nat.two_pow_pos _), ← pow_add, show len + (len' - len) = len' by omega]
    exact hd
  have hpow : 2 ^ (30 - len) = 2 ^ (len' - len) * 2 ^ (30 - len') := by
    rw [← pow_add, show len' - len + (30 - len') = 30 - len by omega]
  rw [hpow, ← mul_assoc, ← mul_assoc]
  constructor
  · refine mul_le_mul_right _ ?_
    rw [hfrt]
    exact div_mul_le_self d _
  refine mul_le_mul_right _ ?_
  rw [hfrt, add_mul]
  have hdiv := div_add_mod' d (2 ^ (len' - len))
  omega

theorem not_prefix_of_ranges {a b : Nat × Nat} (hb : b.2 ≤ 30)
    (ha : a.1 < 2 ^ a.2) (hb' : b.1 < 2 ^ b.2)
    (h : rangesApart (codeRange a) (codeRange b) = true ∨
      rangesApart (codeRange b) (codeRange a) = true) :
    ¬ toBits a.2 a.1 <+: toBits b.2 b.1 := by
  intro hpre
  obtain ⟨hlow, hhigh⟩ := range_within hb ha hb' hpre
  have hne : b.1 * 2 ^ (30 - b.2) < (b.1 + 1) * 2 ^ (30 - b.2) :=
    mul_lt_mul_of_pos_right (lt_succ_self _) (Nat.two_pow_pos _)
  simp only [rangesApart, codeRange, Bool.or_eq_true, ble_eq] at h
  omega

theorem codes_apart : (huffmanCodes.zip huffmanCodeLen).zipIdx.Pairwise fun a b =>
    Apart (entryBits a) (entryBits b) := by
  have hranges := pairwise_map.mp (allApart_pairwise codes_ranges_apart)
  have hcodes : (huffmanCodes.zip huffmanCodeLen).Pairwise fun a b =>
      Apart (toBits a.2 a.1) (toBits b.2 b.1) := by
    refine hranges.imp_of_mem fun {a b} ha hb hab => ?_
    obtain ⟨-, halen, hacode⟩ := codes_bounded a ha
    obtain ⟨-, hblen, hbcode⟩ := codes_bounded b hb
    exact ⟨not_prefix_of_ranges hblen hacode hbcode (.inl hab),
      not_prefix_of_ranges halen hbcode hacode (.inr hab)⟩
  have hfst := hcodes
  rw [← zipIdx_map_fst 0 (huffmanCodes.zip huffmanCodeLen), pairwise_map] at hfst
  exact hfst

theorem code_mem (sym : UInt8) :
    ((huffmanCodes.getD sym.toNat 0, huffmanCodeLen.getD sym.toNat 0), sym.toNat) ∈
      (huffmanCodes.zip huffmanCodeLen).zipIdx := by
  have hcnt : huffmanCodes.length = 256 ∧ huffmanCodeLen.length = 256 := by decide +kernel
  have hcodes : sym.toNat < huffmanCodes.length := hcnt.1 ▸ sym.toNat_lt
  have hlens : sym.toNat < huffmanCodeLen.length := hcnt.2 ▸ sym.toNat_lt
  rw [mk_mem_zipIdx_iff_getElem?, getElem?_zip_eq_some]
  rw [getD_eq_getElem?_getD, getD_eq_getElem?_getD, getElem?_eq_getElem hcodes,
    getElem?_eq_getElem hlens]
  exact ⟨rfl, rfl⟩

/-- In the tree every code is found. -/
theorem found_root (sym : UInt8) : Found buildRootHuffmanNode sym (codeBits sym) := by
  have hpos : ∀ x ∈ (huffmanCodes.zip huffmanCodeLen).zipIdx, 0 < x.1.2 := by
    intro x hx
    have hmem : x.1 ∈ huffmanCodes.zip huffmanCodeLen := by
      rw [← zipIdx_map_fst 0 (huffmanCodes.zip huffmanCodeLen)]
      exact mem_map_of_mem hx
    exact (codes_bounded x.1 hmem).1
  have hfnd := (found_foldl hpos codes_apart
    fun x _ path tail _ => clear_newInternalNode path).1 _ (code_mem sym)
  rwa [UInt8.ofNat_toNat] at hfnd

end

/-! ## The decoder -/

variable {bits : List Bool} {rounds : Nat}
  {s : HuffmanState} {later : List Bool} {pad : Nat} {syms : List UInt8}

/-- What the decoder still has to put out: the rest of a code leads to the
symbol that is being decoded, and the codes of the others follow. -/
def Owes (s : HuffmanState) (later : List Bool) (pad : Nat) : List UInt8 → Prop
  | [] => s.n = buildRootHuffmanNode ∧ s.sbits = s.cbits ∧
      toBits s.cbits s.cur ++ later = List.replicate pad true
  | c :: rest => ∃ path tail, Finds c tail s.n path ∧ tail ≠ [] ∧ tail.length ≤ 8 ∧
      toBits s.cbits s.cur ++ later =
        pathBits path tail ++ (rest.flatMap codeBits ++ List.replicate pad true)

/-- Between two symbols. -/
theorem owes_root (hn : s.n = buildRootHuffmanNode) (hsbits : s.sbits = s.cbits)
    (hbits : toBits s.cbits s.cur ++ later =
      syms.flatMap codeBits ++ List.replicate pad true) : Owes s later pad syms := by
  cases syms with
  | nil => exact ⟨hn, hsbits, hbits⟩
  | cons c rest =>
    obtain ⟨path, tail, hcode, hne, hlen, hfinds⟩ := found_root c
    refine ⟨path, tail, hn ▸ hfinds, hne, hlen, ?_⟩
    rw [hbits, flatMap_cons, hcode, append_assoc]

/-- The end of a code is read. -/
theorem owes_emit {c : UInt8} {tail : List Bool} (hlen : tail.length ≤ s.cbits)
    (hbits : toBits s.cbits s.cur ++ later =
      tail ++ (syms.flatMap codeBits ++ List.replicate pad true)) :
    Owes (s.emit tail.length c) later pad syms := by
  have hn : (s.emit tail.length c).n = buildRootHuffmanNode := by rw [emit]
  refine owes_root hn rfl ?_
  have hdrop := congrArg (drop tail.length) hbits
  rw [drop_append_of_le_length (by rwa [length_toBits]), drop_toBits hlen, drop_left] at hdrop
  exact hdrop

theorem huffmanFeed_owes (hrds : s.cbits ≤ rounds) (hpad : pad < 8) (h : Owes s later pad syms) :
    ∃ s' out rest, huffmanFeed 0 rounds s = .ok s' ∧ syms = out ++ rest ∧
      s'.buf = s.buf ++ out ∧ s'.cbits < 8 ∧ Owes s' later pad rest := by
  induction rounds generalizing s syms with
  | zero => exact ⟨s, [], syms, rfl, rfl, (append_nil _).symm, by omega, h⟩
  | succ rounds ih =>
    by_cases hcbits : s.cbits < 8
    · refine ⟨s, [], syms, ?_, rfl, (append_nil _).symm, hcbits, h⟩
      rw [huffmanFeed, if_pos hcbits]
    have hidx : byteBits (ofNat (s.cur >>> (s.cbits - 8))) = (toBits s.cbits s.cur).take 8 := by
      rw [byteBits_ofNat, show s.cbits = 8 + (s.cbits - 8) by omega, toBits_add,
        take_left' (length_toBits _ _), show 8 + (s.cbits - 8) - 8 = s.cbits - 8 by omega]
    rw [huffmanFeed, if_neg hcbits]
    cases syms with
    | nil =>
      have hlen := congrArg length h.2.2
      rw [length_append, length_toBits, length_replicate] at hlen
      omega
    | cons c rest =>
      obtain ⟨path, tail, hfinds, hne, hlen, hbits⟩ := h
      cases path with
      | nil =>
        -- the code ends within the next byte
        have htail : tail.length ≤ s.cbits := by omega
        have hpre : tail <+: (toBits s.cbits s.cur).take 8 := by
          refine prefix_take_iff.mpr ⟨prefix_of_prefix_length_le
            ⟨_, hbits.symm⟩ (prefix_append _ _) ?_, hlen⟩
          rwa [length_toBits]
        rw [← hidx] at hpre
        rw [hfinds _ hpre]
        have hpos := length_pos_iff.mpr hne
        have hless : (s.emit tail.length c).cbits ≤ rounds := by
          simp only [emit]
          omega
        obtain ⟨s', out, rest', hfeed, rfl, hbuf, hcbits', howes⟩ :=
          ih hless (owes_emit htail hbits)
        refine ⟨s', c :: out, rest', hfeed, rfl, ?_, hcbits', howes⟩
        rw [hbuf, emit, append_assoc, singleton_append]
      | cons i path =>
        -- the byte leads to another node
        obtain ⟨children, hchild, hbelow⟩ := hfinds
        have hspl : toBits s.cbits s.cur ++ later = byteBits i ++ (pathBits path tail ++
            (rest.flatMap codeBits ++ replicate pad true)) := by
          rw [hbits, pathBits, flatMap_cons, append_assoc, append_assoc, pathBits, append_assoc]
        have hi : ofNat (s.cur >>> (s.cbits - 8)) = i := by
          rw [← byteBits_inj, hidx]
          have htake := congrArg (take 8) hspl
          rw [take_append_of_le_length (by rw [length_toBits]; omega)] at htake
          exact htake
        rw [hi, hchild]
        have hdrop := congrArg (drop 8) hspl
        rw [drop_append_of_le_length (by rw [length_toBits]; omega),
          drop_toBits (by omega)] at hdrop
        have hless : s.cbits - 8 ≤ rounds := by omega
        exact ih hless ⟨path, tail, hbelow, hne, hlen, hdrop⟩

/-- The bytes are fed in one by one. -/
theorem feedAll_owes (v : List UInt8) (hcbits : s.cbits < 8) (hpad : pad < 8)
    (h : Owes s (v.flatMap byteBits) pad syms) :
    ∃ s' out rest, v.foldlM (fun s b => huffmanFeed 0 (s.cbits + 8) (s.push b)) s = .ok s' ∧
      syms = out ++ rest ∧ s'.buf = s.buf ++ out ∧ s'.cbits < 8 ∧ Owes s' [] pad rest := by
  induction v generalizing s syms with
  | nil => exact ⟨s, [], syms, rfl, rfl, (append_nil _).symm, hcbits, h⟩
  | cons b v ih =>
    have hpush : toBits (s.push b).cbits (s.push b).cur ++ v.flatMap byteBits =
        toBits s.cbits s.cur ++ (b :: v).flatMap byteBits := by
      simp only [push]
      rw [toBits_mod (by omega), toBits_shift _ _ b.toNat_lt, append_assoc]
      rfl
    have howes : Owes (s.push b) (v.flatMap byteBits) pad syms := by
      cases syms with
      | nil =>
        have hlen := congrArg length h.2.2
        rw [length_append, length_replicate, flatMap_cons, length_append, length_byteBits] at hlen
        omega
      | cons c rest =>
        obtain ⟨path, tail, hfinds, hne, hlen, hbits⟩ := h
        exact ⟨path, tail, hfinds, hne, hlen, hpush.trans hbits⟩
    obtain ⟨s1, out1, rest1, hfeed, rfl, hbuf1, hcbits1, howes1⟩ :=
      huffmanFeed_owes (le_rfl) hpad howes
    obtain ⟨s', out, rest, hall, rfl, hbuf, hcbits', howes'⟩ := ih hcbits1 howes1
    refine ⟨s', out1 ++ out, rest, ?_, (append_assoc _ _ _).symm, ?_, hcbits', howes'⟩
    · change (huffmanFeed 0 (s.push b).cbits (s.push b) >>= _) = _
      rw [hfeed]
      exact hall
    · rw [hbuf, hbuf1, push, append_assoc]

/-! ### Padding -/

theorem found_short {n : Node} {sym i : UInt8} (h : Found n sym bits)
    (hlen : bits.length ≤ 8) (hi : bits <+: byteBits i) : n.child i = .leaf bits.length sym := by
  obtain ⟨path, tail, rfl, hne, -, hfinds⟩ := h
  cases path with
  | nil => exact hfinds i hi
  | cons j path =>
    have hpos := length_pos_iff.mpr hne
    rw [pathBits, flatMap_cons, length_append, length_append, length_byteBits] at hlen
    omega

theorem found_long {n : Node} {sym i : UInt8} (h : Found n sym bits)
    (hlen : 8 < bits.length) (hi : byteBits i <+: bits) :
    ∃ children, n.child i = .internal children := by
  obtain ⟨path, tail, rfl, -, htail, hfinds⟩ := h
  cases path with
  | nil =>
    rw [pathBits, flatMap_nil, nil_append] at hlen
    omega
  | cons j path =>
    obtain ⟨children, hchild, -⟩ := hfinds
    obtain rfl : i = j := by
      have heq := prefix_iff_eq_take.mp hi
      exact byteBits_inj.mp heq
    exact ⟨children, hchild⟩

/-- A symbol whose code begins with as many ones as the padding has, and goes on
with zeros. -/
def paddingSym (k : Nat) : UInt8 := [0, 61, 69, 85, 119, 38, 88, 33].getD k 0

def paddingByte (k : Nat) : List Bool := List.replicate k true ++ List.replicate (8 - k) false

theorem paddingSym_code : ∀ k < 8, 0 < k →
    ((codeBits (paddingSym k)).length ≤ 8 ∧ k < (codeBits (paddingSym k)).length ∧
      codeBits (paddingSym k) <+: paddingByte k) ∨
    (8 < (codeBits (paddingSym k)).length ∧ paddingByte k <+: codeBits (paddingSym k)) := by
  decide +kernel

/-- Padding leads to a leaf of a code longer than it is, or to another node. -/
theorem child_padding {i : UInt8} {k : Nat} (hpos : 0 < k) (hk : k < 8)
    (hi : byteBits i = paddingByte k) :
    (∃ children, buildRootHuffmanNode.child i = .internal children) ∨
      ∃ codeLen sym, k < codeLen ∧ buildRootHuffmanNode.child i = .leaf codeLen sym := by
  have hfnd := found_root (paddingSym k)
  rcases paddingSym_code k hk hpos with ⟨hlen, hlonger, hpre⟩ | ⟨hlen, hpre⟩
  · rw [← hi] at hpre
    exact .inr ⟨_, _, hlonger, found_short hfnd hlen hpre⟩
  · rw [← hi] at hpre
    exact .inl (found_long hfnd hlen hpre)

theorem flushed_bits (s : HuffmanState) (hcbits : s.cbits ≤ 8) :
    byteBits (ofNat (s.cur <<< (8 - s.cbits))) =
      toBits s.cbits s.cur ++ List.replicate (8 - s.cbits) false := by
  have hshift := toBits_shift s.cbits s.cur (Nat.two_pow_pos (8 - s.cbits))
  rw [or_zero, toBits_zero, show s.cbits + (8 - s.cbits) = 8 by omega] at hshift
  rw [byteBits_ofNat, hshift]

theorem huffmanFlush_owes (hrds : s.cbits ≤ rounds) (hcbits : s.cbits < 8)
    (h : Owes s [] pad syms) :
    ∃ s', huffmanFlush 0 rounds s = .ok s' ∧ s'.buf = s.buf ++ syms ∧ s'.cbits < 8 ∧
      Owes s' [] pad [] := by
  induction rounds generalizing s syms with
  | zero =>
    cases syms with
    | nil => exact ⟨s, rfl, (append_nil _).symm, hcbits, h⟩
    | cons c rest =>
      obtain ⟨path, tail, -, hne, -, hbits⟩ := h
      have hlen := congrArg length hbits
      have hpos := length_pos_iff.mpr hne
      rw [append_nil, length_toBits, length_append, pathBits, length_append] at hlen
      omega
  | succ rounds ih =>
    cases syms with
    | nil =>
      refine ⟨s, ?_, (append_nil _).symm, hcbits, h⟩
      obtain ⟨hn, -, hbits⟩ := h
      rw [huffmanFlush]
      by_cases hzero : s.cbits = 0
      · rw [if_pos hzero]
      rw [append_nil] at hbits
      have hlen := congrArg length hbits
      rw [length_toBits, length_replicate] at hlen
      rw [if_neg hzero, hn]
      have hi := flushed_bits s (le_of_lt hcbits)
      rw [hbits, ← hlen] at hi
      rcases child_padding (pos_of_ne_zero hzero) hcbits hi with
        ⟨children, hchild⟩ | ⟨codeLen, sym, hlonger, hchild⟩
      · rw [hchild]
      · rw [hchild]
        simp [if_pos hlonger]
    | cons c rest =>
      obtain ⟨path, tail, hfinds, hne, htail, hbits⟩ := h
      rw [append_nil] at hbits
      have hlen := congrArg length hbits
      have hpos := length_pos_iff.mpr hne
      rw [length_toBits, length_append, pathBits, length_append] at hlen
      obtain rfl : path = [] := by
        cases path with
        | nil => rfl
        | cons i path =>
          rw [flatMap_cons, length_append, length_byteBits] at hlen
          omega
      have hsh : tail.length ≤ s.cbits := by omega
      have hpre : tail <+: byteBits (ofNat (s.cur <<< (8 - s.cbits))) := by
        rw [flushed_bits s (le_of_lt hcbits), hbits]
        exact (prefix_append _ _).trans (prefix_append _ _)
      have hless : (s.emit tail.length c).cbits ≤ rounds ∧ (s.emit tail.length c).cbits < 8 := by
        simp only [emit]
        omega
      have howes : Owes (s.emit tail.length c) [] pad rest :=
        owes_emit hsh (by rw [append_nil]; exact hbits)
      obtain ⟨s', hflush, hbuf, hcbits', howes'⟩ := ih hless.1 hless.2 howes
      refine ⟨s', ?_, ?_, hcbits', howes'⟩
      · rw [huffmanFlush, if_neg (by omega), hfinds _ hpre]
        simp only [if_neg (not_lt.mpr hsh)]
        exact hflush
      · rw [hbuf, emit, append_assoc, singleton_append]

theorem huffmanCheck_owes (hcbits : s.cbits < 8) (h : Owes s [] pad []) :
    huffmanCheck s = .ok s.buf := by
  obtain ⟨-, hsbits, hbits⟩ := h
  rw [append_nil] at hbits
  have hlen := congrArg length hbits
  rw [length_toBits, length_replicate] at hlen
  have hmask : s.cur &&& (1 <<< s.cbits - 1) = 1 <<< s.cbits - 1 := by
    rw [← hlen, ← toBits_ones, toBits_inj, mod_eq_of_lt (sub_one_lt
      (ne_of_gt (Nat.two_pow_pos s.cbits)))] at hbits
    rw [shiftLeft_eq, Nat.one_mul, and_two_pow_sub_one_eq_mod, hbits]
  rw [huffmanCheck]
  simp only [hmask]
  rw [if_neg (by omega), if_neg (fun h => h rfl)]

/-- A string that is Huffman coded is decoded. -/
theorem huffmanDecode_eq {str v : List UInt8} (h : IsHuffman str v) :
    huffmanDecode 0 v = .ok str := by
  obtain ⟨pad, hpad, hbits⟩ := h
  have hstart : Owes ⟨buildRootHuffmanNode, 0, 0, 0, []⟩ (v.flatMap byteBits) pad str :=
    owes_root (by with_reducible rfl) rfl hbits
  obtain ⟨s, out, rest, hfeed, rfl, hbuf, hcbits, howes⟩ := feedAll_owes v (by decide) hpad hstart
  obtain ⟨s', hflush, hbuf', hcbits', howes'⟩ := huffmanFlush_owes (le_rfl) hcbits howes
  rw [huffmanDecode, hfeed]
  change (huffmanFlush 0 s.cbits s >>= huffmanCheck) = _
  rw [hflush]
  change huffmanCheck s' = _
  rw [huffmanCheck_owes hcbits' howes', hbuf', hbuf]
  rfl

/-- Coded strings are read back, whatever their padding, so none stands for two. -/
theorem huffman_read_back (v : List UInt8) : (∀ str, IsHuffman str v →
    huffmanDecode 0 v = .ok str) ∧ Set.Subsingleton fun str => IsHuffman str v := by
  refine ⟨fun str h => huffmanDecode_eq h, fun str h str' h' => ?_⟩
  exact Except.ok.inj ((huffmanDecode_eq h).symm.trans (huffmanDecode_eq h'))

end Obi.Refine
