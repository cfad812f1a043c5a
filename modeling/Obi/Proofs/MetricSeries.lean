import Obi.Ref.MetricSeries

/-!
# Series are kept apart, and their names bounded

The digits of a length end at the first colon and say where the label ends, so a key is read
back label by label, and label sets have entries of their own.

A span is given the common name when the spans of its service that came before it have as
many names as the limit. The counter of a service says this of all the spans so far, in this
batch and in earlier ones, and nothing is written to the slice that was handed over.
-/

namespace Obi.Refine.ExpiryMap
open Lib Ref.ExpiryMap List

theorem decimal_colon {m n : Nat} {r s : List UInt8}
    (h : decimal m ++ 58 :: r = decimal n ++ 58 :: s) : m = n ∧ r = s := by
  have hread (k : Nat) (t : List UInt8) :
      (decimal k ++ 58 :: t).takeWhile (· ≠ 58) = decimal k := by
    rw [takeWhile_append_of_pos, takeWhile_cons_of_neg (by decide), append_nil]
    intro c hc
    have hdigit := (decimal_isDigit c hc).2
    exact decide_eq_true fun h58 => absurd (h58 ▸ hdigit) (by decide)
  have hdec : decimal m = decimal n := by rw [← hread m r, h, hread]
  rw [hdec] at h
  refine ⟨?_, (cons.inj (append_cancel_left h)).2⟩
  rw [← digitsFrom_decimal m, hdec, digitsFrom_decimal]

theorem labelsKey_cons (label : List UInt8) (labels : List (List UInt8)) :
    labelsKey (label :: labels) = decimal label.length ++ 58 :: (label ++ labelsKey labels) := by
  simp [labelsKey]

theorem labelsKey_inj {a b : List (List UInt8)} (h : labelsKey a = labelsKey b) : a = b := by
  induction a generalizing b with
  | nil =>
    cases b with
    | nil => rfl
    | cons x b => simp [labelsKey] at h
  | cons x a ih =>
    cases b with
    | nil => simp [labelsKey] at h
    | cons y b =>
      rw [labelsKey_cons, labelsKey_cons] at h
      obtain ⟨hlen, hrest⟩ := decimal_colon h
      obtain ⟨rfl, hkeys⟩ := append_inj hrest hlen
      rw [ih hkeys]

/-- The calls for one label set leave the entries of all others as they are. -/
theorem label_sets_apart {T : Type} (a b : List (List UInt8)) :
    (labelsKey a = labelsKey b ↔ a = b) ∧
    ∀ (entries : Table (List UInt8) (Entry T)) now instancer, a ≠ b →
      (getOrCreate entries now a instancer).2.lookup (labelsKey b) = entries.lookup (labelsKey b) ∧
      (delete entries a).2.lookup (labelsKey b) = entries.lookup (labelsKey b) := by
  refine ⟨⟨labelsKey_inj, congrArg _⟩, fun entries now instancer hab => ?_⟩
  have hkey : labelsKey b ≠ labelsKey a := fun h => hab (labelsKey_inj h).symm
  simp only [getOrCreate, delete]
  constructor
  · split <;> rw [Table.get_insert, if_neg hkey]
  · split
    · rfl
    · rw [Table.get_erase, if_neg hkey]

end Obi.Refine.ExpiryMap

namespace Obi.Refine.SpanNameLimiter
open Lib Ref.SpanNameLimiter Loop List
variable {K D : Type} [DecidableEq K] {limit : Nat} {earlier : List (Span K D)}

/-- The names of a service's spans that count. -/
def namesOf (k : K) (spans : List (Span K D)) : Finset String :=
  ((spans.filter fun s => s.service = k ∧ s.ignoreMetrics = false).map Span.traceName).toFinset

/-- The span comes too late for a name of its own. -/
def late (limit : Nat) (earlier : List (Span K D)) (s : Span K D) : Bool :=
  !s.ignoreMetrics && decide (limit ≤ (namesOf s.service earlier).card)

def markIf (b : Bool) (s : Span K D) : Span K D :=
  if b then { s with overrideTraceName := aggregatedMark } else s

/-- The spans, and which of them come too late. -/
def judged (limit : Nat) : List (Span K D) → List (Span K D) → List (Span K D × Bool)
  | _, [] => []
  | earlier, s :: rest => (s, late limit earlier s) :: judged limit (earlier ++ [s]) rest

/-- The spans as they are to be returned. -/
def marked (spans : List (Span K D × Bool)) : List (Span K D) := spans.map fun p => markIf p.2 p.1

def counterOf (limit : Nat) (names : Finset String) : RoutesCount :=
  if limit ≤ names.card then ⟨∅, true⟩ else ⟨names, false⟩

/-- The counters are those of the spans so far. -/
def Tracks (limit : Nat) (counts : Table K RoutesCount) (earlier : List (Span K D)) : Prop :=
  ∀ k, (counts.lookup k).getD ⟨∅, false⟩ = counterOf limit (namesOf k earlier)

/-! ## What is returned -/

theorem judged_append (a b : List (Span K D)) :
    judged limit earlier (a ++ b) = judged limit earlier a ++ judged limit (earlier ++ a) b := by
  induction a generalizing earlier with
  | nil => simp [judged]
  | cons s a ih => simp [judged, ih]

theorem map_fst_judged (a : List (Span K D)) : (judged limit earlier a).map Prod.fst = a := by
  induction a generalizing earlier with
  | nil => rfl
  | cons s a ih => simp [judged, ih]

theorem length_marked (a : List (Span K D)) :
    (marked (judged limit earlier a)).length = a.length := by
  rw [marked, length_map, ← length_map, map_fst_judged]

/-! ## The loop -/

theorem namesOf_concat (k : K) (s : Span K D) : namesOf k (earlier ++ [s]) =
    if s.service = k ∧ s.ignoreMetrics = false then insert s.traceName (namesOf k earlier)
    else namesOf k earlier := by
  by_cases h : s.service = k ∧ s.ignoreMetrics = false
  · ext name
    simp [namesOf, h]
  · simp [namesOf, h]

theorem getCount_spec (l : Loop K D) (key : K) :
    (l.getCount key).spans = l.spans ∧ (l.getCount key).copied = l.copied ∧ ∀ k,
      ((l.getCount key).counts.lookup k).getD ⟨∅, false⟩ = (l.counts.lookup k).getD ⟨∅, false⟩ := by
  rw [getCount]
  split
  · simp
  refine ⟨rfl, rfl, fun k => ?_⟩
  dsimp only
  split
  · next hnone =>
    rw [Table.get_insert]
    split
    · next hk => rw [hk, hnone]; rfl
    · rfl
  · rfl

omit [DecidableEq K] in
theorem write_spec (l : Loop K D) (i : Nat) (s : Span K D) :
    (l.startCopying.write i s).spans = l.spans ∧ (l.startCopying.write i s).counts = l.counts ∧
      (l.startCopying.write i s).output = l.output.set i s := by
  cases hc : l.copied <;> simp [startCopying, write, output, hc]

/-- One pass leaves the slice that was handed over as it was, counts the span it is at, and
changes it or not. -/
theorem pass_spec {l : Loop K D} {s : Span K D} {i : Nat} (hl : Tracks limit l.counts earlier)
    (hs : l.output[i]? = some s) :
    (l.pass limit i).spans = l.spans ∧ Tracks limit (l.pass limit i).counts (earlier ++ [s]) ∧
    (l.pass limit i).output = l.output.set i (markIf (late limit earlier s) s) := by
  have hset : l.output.set i s = l.output := by
    obtain ⟨hi, heq⟩ := List.getElem?_eq_some_iff.mp hs
    rw [← heq, set_getElem_self]
  rw [Loop.pass, hs]
  dsimp only
  split
  · next hign =>
    refine ⟨rfl, fun k => ?_, ?_⟩
    · rw [namesOf_concat, if_neg (by simp [hign])]
      exact hl k
    · simp [late, hign, markIf, hset]
  · next hign =>
    rw [Bool.not_eq_true] at hign
    obtain ⟨hspans, hcopied, hcounts⟩ := getCount_spec l s.service
    have hcount : (l.getCount s.service).count s.service =
        counterOf limit (namesOf s.service earlier) := (hcounts _).trans (hl _)
    have hout : (l.getCount s.service).output = l.output := by rw [output, output, hspans, hcopied]
    rw [hcount, counterOf]
    split
    · next hreached =>
      obtain ⟨hsame, hkept, hwrite⟩ := write_spec (l.getCount s.service) i
        { s with overrideTraceName := aggregatedMark }
      rw [if_pos rfl]
      refine ⟨hsame.trans hspans, fun k => ?_, ?_⟩
      · rw [namesOf_concat, hkept, hcounts, hl]
        split
        · next hk =>
          rw [← hk.1, counterOf, counterOf, if_pos hreached, if_pos]
          exact hreached.trans (Finset.card_le_card (Finset.subset_insert ..))
        · rfl
      · rw [hwrite, hout]
        simp [late, hign, markIf, hreached]
    · next hbelow =>
      rw [if_neg Bool.false_ne_true]
      refine ⟨hspans, fun k => ?_, ?_⟩
      · rw [namesOf_concat, Table.get_insert]
        split
        · next hk => simp [hk, hign, counterOf]
        · next hk =>
          rw [if_neg fun h => hk h.1.symm]
          exact (hcounts k).trans (hl k)
      · simp [late, hign, markIf, hbelow, hset]
        exact hout

/-- The loop over a batch, after some of the passes. -/
theorem passes_spec {counts : Table K RoutesCount} (hcounts : Tracks limit counts earlier)
    (spans : List (Span K D)) {n : Nat} (hn : n ≤ spans.length) :
    let l := (range n).foldl (pass limit) ⟨counts, none, spans, none⟩
    l.spans = spans ∧ Tracks limit l.counts (earlier ++ spans.take n) ∧
      l.output = marked (judged limit earlier (spans.take n)) ++ spans.drop n := by
  induction n with
  | zero => simpa [marked, judged, output] using hcounts
  | succ n ih =>
    obtain ⟨hspans, hl, hout⟩ := ih (Nat.le_of_succ_le hn)
    have hlen : (marked (judged limit earlier (spans.take n))).length = n := by
      rw [length_marked, length_take]
      omega
    rw [drop_eq_getElem_cons hn] at hout
    rw [range_succ, foldl_append]
    generalize (range n).foldl _ _ = l at *
    obtain ⟨hsame, hnext, hmarked⟩ := pass_spec hl (s := spans[n]) (i := n) (by
      rw [hout, getElem?_append_right (by omega), hlen, Nat.sub_self]
      rfl)
    refine ⟨hsame.trans hspans, ?_, hmarked.trans ?_⟩
    · rw [take_succ_eq_append_getElem hn, ← append_assoc]
      exact hnext
    · rw [hout, take_succ_eq_append_getElem hn, judged_append, set_append_right _ _ (by omega),
        hlen, Nat.sub_self, set_cons_zero, marked, marked, map_append, append_assoc]
      rfl

theorem aggregateAll_spec {counts : Table K RoutesCount} (hcounts : Tracks limit counts earlier)
    (batches : List (List (Span K D))) :
    (aggregateAll limit counts batches).map Loop.spans = batches ∧
    ((aggregateAll limit counts batches).map output).map length = batches.map length ∧
    ((aggregateAll limit counts batches).map output).flatten =
      marked (judged limit earlier batches.flatten) := by
  induction batches generalizing counts earlier with
  | nil => simp [aggregateAll, marked, judged]
  | cons spans rest ih =>
    obtain ⟨hspans, hl, hout⟩ := passes_spec hcounts spans (Nat.le_refl _)
    rw [take_length] at hl hout
    obtain ⟨hsame, hlens, hrest⟩ := ih hl
    rw [drop_length, append_nil] at hout
    simp only [aggregateAll, aggregate, map_cons, flatten_cons]
    refine ⟨?_, ?_, ?_⟩
    · rw [hspans]
      exact congrArg _ hsame
    · rw [hout, length_marked]
      exact congrArg _ hlens
    · rw [judged_append, marked, map_append, hout]
      exact congrArg _ hrest

/-! ## The names that are left -/

theorem card_namesOf_le {a b : List (Span K D)} (k : K) (h : a ⊆ b) :
    (namesOf k a).card ≤ (namesOf k b).card := by
  refine Finset.card_le_card fun name hname => ?_
  simp only [namesOf, mem_toFinset, mem_map, mem_filter] at hname ⊢
  obtain ⟨s, ⟨hs, hcounts⟩, hname⟩ := hname
  exact ⟨s, ⟨h hs, hcounts⟩, hname⟩

theorem mem_judged {spans : List (Span K D)} {p : Span K D × Bool}
    (hp : p ∈ judged limit earlier spans) :
    ∃ before ⊆ earlier ++ spans, p.2 = late limit before p.1 := by
  induction spans generalizing earlier with
  | nil => cases hp
  | cons s rest ih =>
    rcases mem_cons.mp hp with rfl | hp
    · exact ⟨earlier, subset_append_left _ _, rfl⟩
    · simpa using ih hp

/-- The spans that are returned as they came. -/
def passing (spans : List (Span K D × Bool)) : List (Span K D) :=
  (spans.filter fun p => !p.2).map Prod.fst

theorem passing_subset (spans : List (Span K D)) :
    passing (judged limit earlier spans) ⊆ spans := by
  have h := (filter_sublist (l := judged limit earlier spans) (p := fun p => !p.2)).map Prod.fst
  rw [map_fst_judged] at h
  exact h.subset

/-- What a span does to those before it: the last one that passes is the last new name. -/
theorem judged_spec (hlimit : 0 < limit) (spans : List (Span K D)) :
    ((judged limit [] spans).Pairwise fun p q => p.2 = true → q.1.service = p.1.service →
      q.1.ignoreMetrics = false → q.2 = true) ∧
    ∀ k, (namesOf k (passing (judged limit [] spans))).card ≤ limit := by
  induction spans using reverseRecOn with
  | nil => exact ⟨.nil, fun k => hlimit.le⟩
  | append_singleton l s ih =>
    rw [judged_append]
    refine ⟨pairwise_append.mpr ⟨ih.1, pairwise_singleton _ _, ?_⟩, fun k => ?_⟩
    · intro p hp q hq hlate hservice hign
      obtain ⟨before, hbefore, heq⟩ := mem_judged hp
      cases mem_singleton.mp hq
      rw [heq, late, Bool.and_eq_true, decide_eq_true_eq] at hlate
      dsimp only at hservice hign
      simpa [late, hservice, hign] using hlate.2.trans (card_namesOf_le _ hbefore)
    · rw [passing, filter_append, map_append, ← passing, judged]
      cases hs : late limit ([] ++ l) s with
      | true => simpa [judged] using ih.2 k
      | false =>
        show (namesOf k (_ ++ [s])).card ≤ limit
        rw [namesOf_concat]
        split
        · next hk =>
          have hcard : (namesOf k l).card < limit := by simpa [late, hk] using hs
          exact (Finset.card_insert_le _ _).trans
            ((card_namesOf_le k (passing_subset l)).trans_lt hcard)
        · exact ih.2 k

/-- The slices handed over stay as they are; what is returned are their spans, some with the
common name; those whose metrics are ignored do not get it; once a span of a service got it,
all later ones do; and the others have no more names than the limit. -/
theorem span_names_limited (n : Nat) (batches : List (List (Span K D))) :
    let loops := aggregateAll (n + 1) ∅ batches
    loops.map Loop.spans = batches ∧ (loops.map output).map length = batches.map length ∧
    ∃ spans : List (Span K D × Bool), spans.map Prod.fst = batches.flatten ∧
      (loops.map output).flatten = spans.map (fun p =>
        if p.2 then { p.1 with overrideTraceName := aggregatedMark } else p.1) ∧
      (∀ p ∈ spans, p.1.ignoreMetrics = true → p.2 = false) ∧
      (spans.Pairwise fun p q => p.2 = true → q.1.service = p.1.service →
        q.1.ignoreMetrics = false → q.2 = true) ∧
      ∀ k, (namesOf k (passing spans)).card ≤ n + 1 := by
  have hzero : Tracks (n + 1) (∅ : Table K RoutesCount) ([] : List (Span K D)) := fun k => rfl
  obtain ⟨hspans, hlens, hout⟩ := aggregateAll_spec hzero batches
  refine ⟨hspans, hlens, judged (n + 1) [] batches.flatten, map_fst_judged _, hout, ?_,
    judged_spec (Nat.succ_pos n) _⟩
  intro p hp hign
  obtain ⟨before, -, heq⟩ := mem_judged hp
  rw [heq, late, hign]
  rfl

/-- How the spans are cut into batches changes nothing. -/
theorem batches_as_one (n : Nat) (batches : List (List (Span K D))) :
    ((aggregateAll (n + 1) ∅ batches).map output).flatten =
      (aggregate (n + 1) ∅ batches.flatten).output := by
  have hzero : Tracks (n + 1) (∅ : Table K RoutesCount) ([] : List (Span K D)) := fun k => rfl
  have hone := (aggregateAll_spec hzero [batches.flatten]).2.2
  rw [(aggregateAll_spec hzero batches).2.2, ← flatten_singleton (l := batches.flatten), ← hone]
  simp [aggregateAll]

end Obi.Refine.SpanNameLimiter
