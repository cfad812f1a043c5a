import Obi.Ref.Extender

/-!
# The header scan in chunks is one scan

`find_existing_tp` looks at 1024 offsets of a message and enters itself again for the
next ones, the position being rebuilt from `niter`. An offset is where the scan ends, is
where a header begins, or is passed over; between two entries all offsets so far were
passed over, and as the scan ends before the end of the message there always is a next
chunk to look at.
-/

namespace Obi.Refine
open Lib Ref Nat List

/-! ## One scan -/

/-- The scan ends at an offset: there is no room for a header, or the headers are over. -/
def ScanEnds (bytes : List UInt8) (j : Nat) : Prop :=
  j + tpSize + 1 > bytes.length ∨ isEoh (bytes.drop j) = true

def HeaderAt (bytes : List UInt8) (j : Nat) : Prop := isTraceparent (bytes.drop j) = true

/-- The offset of the header one scan over the whole message finds. -/
structure FirstHeader (bytes : List UInt8) (k : Nat) : Prop where
  lt : k < 4096
  header : HeaderAt bytes k
  first : ∀ j < k, ¬ HeaderAt bytes j
  going : ∀ j ≤ k, ¬ ScanEnds bytes j

/-- All offsets below `n` are passed over. -/
def PassedOver (bytes : List UInt8) (n : Nat) : Prop :=
  ∀ j < n, ¬ ScanEnds bytes j ∧ ¬ HeaderAt bytes j

variable {bytes : List UInt8} {k n : Nat} {run : List Hop} {j iter : Nat} {p : Prog}

theorem FirstHeader.unique (h : FirstHeader bytes k) {k' : Nat} (h' : FirstHeader bytes k') :
    k = k' := by
  rcases lt_trichotomy k k' with hlt | heq | hlt
  · exact absurd h.header (h'.first k hlt)
  · exact heq
  · exact absurd h'.header (h.first k' hlt)

/-! ## One chunk -/

theorem PassedOver.succ (h : PassedOver bytes n) (hends : ¬ ScanEnds bytes n)
    (hhdr : ¬ HeaderAt bytes n) : PassedOver bytes (n + 1) := by
  intro j hj
  rcases lt_or_ge j n with hlt | hge
  · exact h j hlt
  · obtain rfl : j = n := by omega
    exact ⟨hends, hhdr⟩

/-- What the loop over the chunk from `n` to `n + top` answers. -/
inductive ChunkScan (bytes : List UInt8) (n top : Nat) : Http1Scan → Prop
  | ends {j : Nat} (hbef : PassedOver bytes (n + j)) (hends : ScanEnds bytes (n + j)) :
      ChunkScan bytes n top .endOfHeaders
  | found {j : Nat} (hj : j < top) (hbef : PassedOver bytes (n + j))
      (hends : ¬ ScanEnds bytes (n + j)) (hhdr : HeaderAt bytes (n + j)) :
      ChunkScan bytes n top (.found j)
  | more (hall : PassedOver bytes (n + top)) : ChunkScan bytes n top .more

theorem scanEnds_iff :
    (tpSize + 1 > (bytes.drop j).length ∨ isEoh (bytes.drop j) = true) ↔ ScanEnds bytes j := by
  rw [length_drop]
  refine or_congr_left ?_
  omega

theorem http1ScanFrom_chunk (bytes : List UInt8) (n left i : Nat)
    (hbef : PassedOver bytes (n + i)) :
    ChunkScan bytes n (i + left) (http1ScanFrom left i (bytes.drop (n + i))) := by
  induction left generalizing i with
  | zero => exact .more hbef
  | succ left ih =>
    rw [http1ScanFrom]
    split
    · next h => exact .ends hbef (scanEnds_iff.mp h)
    · next h =>
      have hends : ¬ ScanEnds bytes (n + i) := mt scanEnds_iff.mpr h
      split
      · next hhdr => exact .found (by omega) hbef hends hhdr
      · next hhdr =>
        have hnext := ih (i + 1) (hbef.succ hends hhdr)
        rw [drop_drop, show i + (left + 1) = i + 1 + left by omega]
        exact hnext

/-! ## The programs of the scan -/

/-- What the scan reads of a chain: the whole message is mapped. -/
structure HeaderScan (bytes : List UInt8) (s : Chain) : Prop where
  mapped : s.msg.mapped = some bytes
  before : PassedOver bytes (s.ctx.niter * kHttp1ScanChunkSize)
  niter_lt : s.ctx.niter < kHttp1MaxScanIters

variable {s : Chain} {env : HopEnv}

/-- There is a next chunk: the scan ends before the end of a message. -/
theorem HeaderScan.length_pos (h : HeaderScan bytes s) (hpos : 1 ≤ bytes.length) :
    s.ctx.niter * kHttp1ScanChunkSize < bytes.length := by
  have hbef := h.before
  rw [kHttp1ScanChunkSize] at hbef ⊢
  rcases Nat.eq_zero_or_pos s.ctx.niter with hzero | hiter
  · omega
  have hlast := (hbef (s.ctx.niter * 1024 - 1) (by omega)).1
  rw [ScanEnds, tpSize] at hlast
  omega

/-- Where a round of the scan goes. -/
inductive HeaderScanExit (bytes : List UInt8) (s : Chain) : Exit × Chain → Prop
  | create {s' : Chain} (hnone : ∀ k, ¬ FirstHeader bytes k) :
      HeaderScanExit bytes s (.tailCall .createTp, s')
  | parse {s' : Chain} (hfst : FirstHeader bytes s'.ctx.http1TpOffset) :
      HeaderScanExit bytes s (.tailCall .parseExistingTp, s')
  | again {s' : Chain} (hs : HeaderScan bytes s') (hiter : s'.ctx.niter = s.ctx.niter + 1) :
      HeaderScanExit bytes s (.tailCall .findExistingTp, s')

/-- A header in the chunk is the first one of the message. -/
theorem firstHeader_found (hiter : iter < kHttp1MaxScanIters)
    (hj : j < kHttp1ScanChunkSize) (hbef : PassedOver bytes (iter * kHttp1ScanChunkSize + j))
    (hends : ¬ ScanEnds bytes (iter * kHttp1ScanChunkSize + j))
    (hhdr : HeaderAt bytes (iter * kHttp1ScanChunkSize + j)) :
    FirstHeader bytes (iter * kHttp1ScanChunkSize + j) := by
  refine ⟨?_, hhdr, fun i hi => (hbef i hi).2, fun i hi => ?_⟩
  · rw [kHttp1ScanChunkSize] at hj ⊢
    rw [kHttp1MaxScanIters] at hiter
    omega
  rcases lt_or_eq_of_le hi with hlt | heq
  · exact (hbef i hlt).1
  · rw [heq]
    exact hends

/-- The last offsets of a message have no room for a header. -/
theorem chunk_full (hlen : iter * kHttp1ScanChunkSize < bytes.length)
    (hall : PassedOver bytes (iter * kHttp1ScanChunkSize +
      min (bytes.drop (iter * kHttp1ScanChunkSize)).length kHttp1ScanChunkSize)) :
    PassedOver bytes ((iter + 1) * kHttp1ScanChunkSize) := by
  rw [kHttp1ScanChunkSize, length_drop] at *
  rcases lt_or_ge (bytes.length - iter * 1024) 1024 with hsh | hfull
  · have hlast := (hall (bytes.length - 1) (by omega)).1
    rw [ScanEnds, tpSize] at hlast
    omega
  · rw [min_eq_right hfull] at hall
    rwa [show (iter + 1) * 1024 = iter * 1024 + 1024 by omega]

theorem findExistingTp_exit (henv : env.tailcallCtxMem = true)
    (hs : HeaderScan bytes s) (hpos : 1 ≤ bytes.length) :
    HeaderScanExit bytes s (findExistingTp env s) := by
  have hlen := hs.length_pos hpos
  have hptr : (s.msg.mapped.getD []).drop (s.ctx.niter * kHttp1ScanChunkSize) =
      bytes.drop (s.ctx.niter * kHttp1ScanChunkSize) := by rw [hs.mapped]; rfl
  have hnonempty : ¬ (bytes.drop (s.ctx.niter * kHttp1ScanChunkSize)).length < 1 := by
    rw [length_drop]
    omega
  rw [findExistingTp, if_neg (not_not.mpr henv)]
  simp only [hptr]
  rw [if_neg (not_le.mpr hs.niter_lt), if_neg hnonempty]
  have hchunk := http1ScanFrom_chunk bytes (s.ctx.niter * kHttp1ScanChunkSize)
    (min (bytes.drop (s.ctx.niter * kHttp1ScanChunkSize)).length kHttp1ScanChunkSize) 0
    (by rw [add_zero]; exact hs.before)
  rw [zero_add] at hchunk
  generalize http1ScanFrom _ 0 (bytes.drop (s.ctx.niter * kHttp1ScanChunkSize)) = scan at hchunk
  cases hchunk with
  | ends hbef hends =>
    refine .create fun k hk => ?_
    rcases lt_or_ge k _ with hlt | hge
    · exact (hbef k hlt).2 hk.header
    · exact hk.going _ hge hends
  | @found j hj hbef hends hhdr =>
    have hj' : j < kHttp1ScanChunkSize := lt_of_lt_of_le hj (min_le_right _ _)
    exact .parse (firstHeader_found hs.niter_lt hj' hbef hends hhdr)
  | more hall =>
    have hnext := chunk_full hlen hall
    simp only
    split
    · next hmore => exact .again ⟨hs.mapped, hnext, hmore⟩ rfl
    · next hdone =>
      have hiter : s.ctx.niter + 1 = 4 := le_antisymm hs.niter_lt (not_lt.mp hdone)
      rw [hiter] at hnext
      exact .create fun k hk => (hnext k hk.lt).2 hk.header

/-! ## The run -/

/-- How often a program is entered. -/
def entered (p : Prog) (run : List Hop) : Nat := run.countP fun h => h.2.1 = p

theorem chainStep_of_tailCall {q : Prog} {s' : Chain}
    (h : runProg env p s = (.tailCall q, s')) : chainStep env (p, s) = some (q, s') := by
  simp [chainStep, h]

theorem chainStep_of_pass (h : (runProg env p s).1 = .pass) : chainStep env (p, s) = none := by
  rw [chainStep]
  generalize runProg env p s = r at h
  obtain ⟨e, s'⟩ := r
  obtain rfl : e = .pass := h
  rfl

theorem parseTp_pass (env : HopEnv) (s : Chain) : (parseExistingTp env s).1 = .pass := by
  unfold parseExistingTp
  simp only
  split
  · rfl
  split
  · rfl
  · split <;> rfl

/-- Behind `create_tp` only the header may still be written. -/
theorem createTp_pass (env : HopEnv) (s : Chain) :
    (createTp env s).1 = .pass ∨ (createTp env s).1 = .tailCall .writeMsgTraceparent := by
  unfold createTp
  simp only
  split
  · exact .inl rfl
  split
  · exact .inr rfl
  · exact .inl rfl

/-- The programs behind the scan do not come back to it. -/
theorem visited_parseTp (hop : Nat → HopEnv) (limit i : Nat) (s : Chain) :
    visited chainStep hop (limit + 1) i (.parseExistingTp, s) = [(hop i, .parseExistingTp, s)] := by
  rw [visited, chainStep_of_pass (p := .parseExistingTp) (parseTp_pass _ s)]

theorem visited_writeMsgTp (hop : Nat → HopEnv) (limit i : Nat) (s : Chain) :
    ∀ v ∈ visited chainStep hop limit i (.writeMsgTraceparent, s),
      v.2.1 = .writeMsgTraceparent := by
  cases limit with
  | zero => intro v hv; cases hv
  | succ limit =>
    rw [visited, chainStep_of_pass (by simp only [runProg, writeMsgTp]; split <;> rfl)]
    intro v hv
    rw [mem_singleton.mp hv]

theorem visited_createTp (hop : Nat → HopEnv) (limit i : Nat) (s : Chain) :
    ∃ rest : List Hop, visited chainStep hop (limit + 1) i (.createTp, s) =
      (hop i, .createTp, s) :: rest ∧ ∀ v ∈ rest, v.2.1 = .writeMsgTraceparent := by
  refine ⟨_, rfl, ?_⟩
  rcases createTp_pass (hop i) s with hpass | hwrite
  · rw [chainStep_of_pass (p := .createTp) hpass]
    intro v hv
    cases hv
  · rw [chainStep_of_tailCall (p := .createTp) (Prod.ext hwrite rfl)]
    exact visited_writeMsgTp hop limit (i + 1) _

/-- What the scan and the programs behind it come to. -/
structure ScanRun (bytes : List UInt8) (run : List Hop) : Prop where
  parse : ∀ h ∈ run, h.2.1 = .parseExistingTp → FirstHeader bytes h.2.2.ctx.http1TpOffset
  found : ∀ k, FirstHeader bytes k → entered .parseExistingTp run = 1 ∧ entered .createTp run = 0
  none : (∀ k, ¬ FirstHeader bytes k) → entered .parseExistingTp run = 0 ∧ entered .createTp run = 1

theorem entered_cons (p : Prog) (h : Hop) (run : List Hop) :
    entered p (h :: run) = entered p run + if h.2.1 = p then 1 else 0 := by
  simp [entered, countP_cons]

theorem entered_eq_zero (h : ∀ v ∈ run, v.2.1 ≠ p) : entered p run = 0 := by
  rw [entered, countP_eq_zero]
  intro v hv
  rw [decide_eq_true_eq]
  exact h v hv

theorem scanRun_parse (hfst : FirstHeader bytes s.ctx.http1TpOffset) :
    ScanRun bytes [(env, .parseExistingTp, s)] := by
  refine ⟨fun h hh _ => ?_, fun k _ => ⟨rfl, rfl⟩, fun hnone => absurd hfst (hnone _)⟩
  rw [mem_singleton.mp hh]
  exact hfst

theorem scanRun_create {rest : List Hop}
    (hrest : ∀ v ∈ rest, v.2.1 = .writeMsgTraceparent) (hnone : ∀ k, ¬ FirstHeader bytes k) :
    ScanRun bytes ((env, .createTp, s) :: rest) := by
  refine ⟨fun h hh hprs => ?_, fun k hk => absurd hk (hnone k), fun _ => ⟨?_, ?_⟩⟩
  · rcases mem_cons.mp hh with rfl | hin
    · cases hprs
    · rw [hrest h hin] at hprs
      cases hprs
  · rw [entered_cons, entered_eq_zero fun v hv => by rw [hrest v hv]; nofun]
    rfl
  · rw [entered_cons, entered_eq_zero fun v hv => by rw [hrest v hv]; nofun]
    rfl

/-- A round that goes on to the next chunk is neither. -/
theorem ScanRun.again (h : ScanRun bytes run) :
    ScanRun bytes ((env, .findExistingTp, s) :: run) := by
  refine ⟨fun v hv hprs => ?_, fun k hk => ?_, fun hnone => ?_⟩
  · rcases mem_cons.mp hv with rfl | hin
    · cases hprs
    · exact h.parse v hin hprs
  · exact h.found k hk
  · exact h.none hnone

theorem scanRun_visited (hop : Nat → HopEnv) (henv : ∀ i, (hop i).tailcallCtxMem = true)
    (hpos : 1 ≤ bytes.length) (limit i : Nat) (hs : HeaderScan bytes s)
    (hlimit : 5 ≤ limit + s.ctx.niter) :
    ScanRun bytes (visited chainStep hop limit i (.findExistingTp, s)) := by
  induction limit generalizing i s with
  | zero =>
    have hiter := hs.niter_lt
    rw [kHttp1MaxScanIters] at hiter
    omega
  | succ limit ih =>
    have hiter := hs.niter_lt
    rw [kHttp1MaxScanIters] at hiter
    have hexit := findExistingTp_exit (henv i) hs hpos
    rw [visited]
    generalize hrun : findExistingTp (hop i) s = r at hexit
    cases hexit with
    | @create s' hnone =>
      rw [chainStep_of_tailCall (p := .findExistingTp) hrun]
      obtain ⟨n, rfl⟩ : ∃ n, limit = n + 1 := ⟨limit - 1, by omega⟩
      obtain ⟨rest, hvisited, hrest⟩ := visited_createTp hop n (i + 1) s'
      simp only [hvisited]
      exact (scanRun_create hrest hnone).again
    | parse hfst =>
      rw [chainStep_of_tailCall (p := .findExistingTp) hrun]
      obtain ⟨n, rfl⟩ : ∃ n, limit = n + 1 := ⟨limit - 1, by omega⟩
      simp only [visited_parseTp]
      exact (scanRun_parse hfst).again
    | again hs' hnext =>
      rw [chainStep_of_tailCall (p := .findExistingTp) hrun]
      exact (ih (i + 1) hs' (by omega)).again

/-- A message is scanned chunk by chunk as it would be at once. With the whole message
mapped, `parse_existing_tp` is entered for the header one scan over the first 4096
offsets finds, and if it finds none `create_tp` is entered once. -/
theorem http1_scan_is_flat (hop : Nat → HopEnv) (henv : ∀ i, (hop i).tailcallCtxMem = true)
    (s : Chain) (hmapped : s.msg.mapped = some s.msg.bytes) (hniter : s.ctx.niter = 0)
    (hpos : 1 ≤ s.msg.size) (limit : Nat) (hlimit : 5 ≤ limit) :
    let run := visited chainStep hop limit 0 (.findExistingTp, s)
    (∀ k, (∃ h ∈ run, h.2.1 = .parseExistingTp ∧ h.2.2.ctx.http1TpOffset = k) ↔
        FirstHeader s.msg.bytes k) ∧
      ((∃ k, FirstHeader s.msg.bytes k) →
        entered .parseExistingTp run = 1 ∧ entered .createTp run = 0) ∧
      ((∀ k, ¬ FirstHeader s.msg.bytes k) →
        entered .parseExistingTp run = 0 ∧ entered .createTp run = 1) := by
  have hs : HeaderScan s.msg.bytes s := by
    refine ⟨hmapped, fun j hj => ?_, by rw [hniter]; decide⟩
    rw [hniter, zero_mul] at hj
    cases hj
  have hrun := scanRun_visited hop henv hpos limit 0 hs (by omega)
  refine ⟨fun k => ⟨?_, fun hk => ?_⟩, fun ⟨k, hk⟩ => hrun.found k hk, hrun.none⟩
  · intro ⟨h, hh, hprs, hoff⟩
    rw [← hoff]
    exact hrun.parse h hh hprs
  have hone : 0 < entered .parseExistingTp
      (visited chainStep hop limit 0 (.findExistingTp, s)) := by
    rw [(hrun.found k hk).1]
    exact zero_lt_one
  obtain ⟨h, hh, hprs⟩ := countP_pos_iff.mp hone
  rw [decide_eq_true_eq] at hprs
  exact ⟨h, hh, hprs, (hrun.parse h hh hprs).unique hk⟩

/-- A message whose second byte opens a header. -/
def scanSample : Chain :=
  { cfg := ⟨true, true, true⟩
    msg :=
      { bytes := 0x0a :: (makeTpString sampleTp ++ [0x0d, 0x0a])
        data := some ⟨0, 73⟩
        size_lt := by decide
        data_le := fun w hw => by cases hw; decide }
    ctx := .zero
    tpInfo := .zero
    sk := ⟨none, none⟩ }

theorem http1_scan_is_flat_sample : FirstHeader scanSample.msg.bytes 1 ∧ entered .parseExistingTp
        (visited chainStep (fun _ => HopEnv.ok) 33 0 (.findExistingTp, scanSample)) = 1 := by
  have hfst : FirstHeader scanSample.msg.bytes 1 := by
    have hstop : ∀ j ≤ 1, ¬ (j + tpSize + 1 > scanSample.msg.bytes.length ∨
        isEoh (scanSample.msg.bytes.drop j) = true) := by decide
    have hearlier : ∀ j < 1, ¬ isTraceparent (scanSample.msg.bytes.drop j) = true := by decide
    have hhdr : isTraceparent (scanSample.msg.bytes.drop 1) = true := by decide
    exact ⟨by decide, hhdr, hearlier, hstop⟩
  exact ⟨hfst, ((http1_scan_is_flat (fun _ => .ok) (fun _ => rfl) scanSample rfl rfl (by decide)
    33 (by decide)).2.1 ⟨1, hfst⟩).1⟩

end Obi.Refine
