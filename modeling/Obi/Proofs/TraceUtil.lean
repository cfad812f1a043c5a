import Mathlib.Data.List.GetD
import Obi.Ref.TraceUtil

/-!
# Which header the two scanners find

Both look at the offsets of a buffer in order. The one with `bpf_loop` passes over every
offset that is not a complete header; the older one returns at the first name it meets,
with the header if its value is well formed and with nothing if it is not. They agree
where the first name is that of the first well-formed header.
-/

namespace Obi.Refine
open Lib Ref List

/-- A header with its dashes in place lies completely inside the buffer. -/
structure CompleteHeader (bytes : List UInt8) (i : Nat) : Prop where
  fits : i + traceParentHeaderLen ≤ bytes.length
  name : isTraceparent (bytes.drop i) = true
  dashes : validTraceparent (bytes.drop i) = true

variable {bytes rest : List UInt8} {p : Nat}

/-! ## What the checks read -/

variable {i : Nat} {j left : Nat}

theorem getD_drop_append (h : i + j < bytes.length) :
    ((bytes ++ rest).drop i).getD j 0 = (bytes.drop i).getD j 0 := by
  rw [drop_append_of_le_length (by omega), getD_append]
  rw [length_drop]
  omega

theorem slice_drop_append {n : Nat} (h : i + j + n ≤ bytes.length) :
    slice ((bytes ++ rest).drop i) j n = slice (bytes.drop i) j n := by
  rw [slice, slice, drop_drop, drop_drop, drop_append_of_le_length (by omega),
    take_append_of_le_length]
  rw [length_drop]
  omega

/-- The name is read from the buffer alone, up to where it can still be inside. -/
theorem isTraceparent_append (h : i + 13 ≤ bytes.length) :
    isTraceparent ((bytes ++ rest).drop i) = isTraceparent (bytes.drop i) := by
  rw [isTraceparent, isTraceparent, getD_drop_append (by omega), getD_drop_append (by omega),
    slice_drop_append (by omega), slice_drop_append (by omega)]

theorem validTraceparent_append (h : i + 68 ≤ bytes.length) :
    validTraceparent ((bytes ++ rest).drop i) = validTraceparent (bytes.drop i) := by
  simp only [validTraceparent, tpHeaderNameLen, kTpValDash1, kTpValDash2, kTpValDash3]
  rw [getD_drop_append (by omega), getD_drop_append (by omega), getD_drop_append (by omega)]

theorem complete_iff (h : i + 68 ≤ bytes.length) :
    (isTraceparent ((bytes ++ rest).drop i) && validTraceparent ((bytes ++ rest).drop i)) = true ↔
      CompleteHeader bytes i := by
  rw [isTraceparent_append (by omega), validTraceparent_append h, Bool.and_eq_true]
  exact ⟨fun hc => ⟨h, hc.1, hc.2⟩, fun hc => ⟨hc.name, hc.dashes⟩⟩

/-! ## The scanner with `bpf_loop` -/

/-- Offsets that are not complete headers are passed over. -/
theorem strstrLoop_first (hlen : bytes.length ≤ traceBufSize - 1)
    (hp : CompleteHeader bytes p) (hfirst : ∀ i < p, ¬ CompleteHeader bytes i) :
    bpfStrstrTpLoop true (bytes ++ rest) bytes.length = some p := by
  have hfits := hp.fits
  simp only [traceBufSize, traceParentHeaderLen] at hlen hfits
  have hcnt : traceparentScanLoopCount bytes.length = min (bytes.length - 68 + 1) 956 := by
    rw [traceparentScanLoopCount, if_neg (not_lt.mpr (by simp only [traceParentHeaderLen]; omega))]
    rfl
  have hpos : loop (traceparentScanLoopCount bytes.length) (tpMatch (bytes ++ rest))
      kTpPosNotFound = p := by
    refine loopFrom_rule (fun i _ => i ≤ p) (Q := (· = p)) ?_ ?_ (zero_add _) (Nat.zero_le p)
    · intro i pos hi hle
      rw [tpMatch, if_neg (not_le.mpr (by simp only [traceBufSize, traceParentHeaderLen]; omega))]
      have hiff := @complete_iff bytes rest i (by omega)
      by_cases heq : i = p
      · rw [if_pos (hiff.mpr (heq ▸ hp))]
        exact heq
      rw [if_neg fun h => hfirst i (by omega) (hiff.mp h)]
      show i + 1 ≤ p
      omega
    · intro pos hle
      omega
  rw [bpfStrstrTpLoop, if_neg (not_not.mpr rfl)]
  simp only [hpos]
  rw [if_neg (by rw [hcnt]; omega), if_pos (by simp only [kTpPosNotFound]; omega),
    if_neg (by simp only [traceBufSize, traceParentHeaderLen]; omega)]

/-! ## The older scanner -/

/-- It does not get past a name. -/
theorem legacyScanFrom_some {buf : List UInt8} (h : legacyScanFrom left i buf = some p) :
    i ≤ p ∧ ∀ j, i + j < p → isTraceparent (buf.drop j) = false := by
  fun_induction legacyScanFrom left i buf with
  | case1 | case2 | case3 | case5 => cases h
  | case4 =>
    cases h
    exact ⟨le_rfl, fun j hj => absurd hj (by omega)⟩
  | case6 left i buf _ hname ih =>
    obtain ⟨hle, hrest⟩ := ih h
    refine ⟨by omega, fun j hj => ?_⟩
    cases j with
    | zero => exact Bool.eq_false_iff.mpr hname
    | succ j =>
      have hj' := hrest j (by omega)
      rwa [drop_drop, add_comm] at hj'

theorem getD_ne_zero (hnul : 0 ∉ bytes) (h : i + j < bytes.length) :
    ((bytes ++ rest).drop i).getD j 0 ≠ 0 := by
  rw [getD_drop_append h]
  have hlt : j < (bytes.drop i).length := by
    rw [length_drop]
    omega
  rw [getD_eq_getElem _ _ hlt]
  intro hzero
  exact hnul (hzero ▸ mem_of_mem_drop (getElem_mem hlt))

theorem legacyScanFrom_first (hnul : 0 ∉ bytes) (hp : CompleteHeader bytes p)
    (hnames : ∀ i < p, ¬ isTraceparent (bytes.drop i) = true) (hle : i ≤ p)
    (hleft : p < i + left) :
    legacyScanFrom left i ((bytes ++ rest).drop i) = some p := by
  have hfits := hp.fits
  rw [traceParentHeaderLen] at hfits
  induction left generalizing i with
  | zero => omega
  | succ left ih =>
    rw [legacyScanFrom, if_neg (getD_ne_zero hnul (by omega)), isTraceparent_append (by omega)]
    by_cases heq : i = p
    · subst heq
      have hcomp : ¬ ((range (traceParentHeaderLen - tpHeaderNameLen)).any
          fun j => ((bytes ++ rest).drop i).getD (tpHeaderNameLen + j) 0 == 0) = true := by
        rw [any_eq_true]
        intro ⟨j, hj, hzero⟩
        rw [mem_range, traceParentHeaderLen, tpHeaderNameLen] at hj
        exact getD_ne_zero hnul (by rw [tpHeaderNameLen]; omega) (beq_iff_eq.mp hzero)
      rw [if_pos hp.name, if_neg hcomp, validTraceparent_append hfits, if_pos hp.dashes]
    · rw [if_neg (hnames i (by omega)), drop_drop]
      exact ih (by omega) (by omega)

/-! ## Both -/

/-- For a buffer with a well-formed header before offset 350, `p` being the first: both
scanners return it exactly if they are enabled and no other `traceparent: ` comes before
it. -/
theorem scanners_agree_iff (traceparentEnabled : Bool) (bytes rest : List UInt8)
    (hlen : bytes.length ≤ traceBufSize - 1) (hnul : 0 ∉ bytes) (p : Nat)
    (hp : CompleteHeader bytes p) (hfirst : ∀ i < p, ¬ CompleteHeader bytes i)
    (hearly : p < kBesteffortMaxLoops) :
    (bpfStrstrTpLoop traceparentEnabled (bytes ++ 0 :: rest) bytes.length = some p ∧
        bpfStrstrTpLoopLegacy traceparentEnabled (bytes ++ 0 :: rest) bytes.length = some p) ↔
      traceparentEnabled = true ∧ ∀ i < p, ¬ isTraceparent (bytes.drop i) = true := by
  have hfits := hp.fits
  cases traceparentEnabled with
  | false => exact ⟨fun h => (nomatch h.1), fun h => (nomatch h.1)⟩
  | true =>
    have hlegacy : bpfStrstrTpLoopLegacy true (bytes ++ 0 :: rest) bytes.length =
        legacyScanFrom kBesteffortMaxLoops 0 (bytes ++ 0 :: rest) := by
      rw [bpfStrstrTpLoopLegacy, if_neg (not_not.mpr rfl), if_neg (by omega)]
    rw [strstrLoop_first hlen hp hfirst, hlegacy]
    constructor
    · intro ⟨_, hsome⟩
      refine ⟨rfl, fun i hi => ?_⟩
      have hname := (legacyScanFrom_some hsome).2 i (by omega)
      rw [traceParentHeaderLen] at hfits
      rw [isTraceparent_append (by omega)] at hname
      rw [hname]
      exact Bool.false_ne_true
    · intro ⟨_, hnames⟩
      exact ⟨rfl, legacyScanFrom_first hnul hp hnames (Nat.zero_le p) (by omega)⟩

/-- `X: 1` and a well-formed header. -/
def headerSample : List UInt8 := [0x58, 0x3a, 0x20, 0x31, 0x0d, 0x0a] ++ makeTpString sampleTp

theorem complete_sample : CompleteHeader headerSample 6 := by
  have hname : isTraceparent (headerSample.drop 6) = true := by decide
  have hdashes : validTraceparent (headerSample.drop 6) = true := by decide
  exact ⟨by decide, hname, hdashes⟩

theorem scanners_agree_iff_sample :
    bpfStrstrTpLoop true (headerSample ++ [0]) headerSample.length = some 6 ∧
      bpfStrstrTpLoopLegacy true (headerSample ++ [0]) headerSample.length = some 6 := by
  have hnames : ∀ i < 6, ¬ isTraceparent (headerSample.drop i) = true := by decide
  exact (scanners_agree_iff true headerSample [] (by decide) (by decide) 6
    complete_sample (fun i hi h => hnames i hi h.name) (by decide)).mpr ⟨rfl, hnames⟩

/-- A header of the application that is none, and a well-formed one. -/
def ownedSample : List UInt8 := tpHeaderName ++ [0x78, 0x0d, 0x0a] ++ makeTpString sampleTp

/-- The older scanner stops at the first name. -/
theorem legacy_stops_at_malformed : CompleteHeader ownedSample 16 ∧
      bpfStrstrTpLoop true (ownedSample ++ [0]) ownedSample.length = some 16 ∧
      bpfStrstrTpLoopLegacy true (ownedSample ++ [0]) ownedSample.length = none := by
  have hname : isTraceparent (ownedSample.drop 16) = true := by decide
  have hdashes : validTraceparent (ownedSample.drop 16) = true := by decide
  exact ⟨⟨by decide, hname, hdashes⟩, by decide, by decide⟩

end Obi.Refine
