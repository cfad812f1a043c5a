import Obi.Ref.Network

/-!
# Sorted connections name a connection, and can be turned back

A port that is likely ephemeral is larger than one that is not, so that the order comes
down to the larger port first. What is left open are equal ports, where a tuple and its
reverse differ in the addresses only.
-/

namespace Obi.Refine
open Ref (ConnectionInfo)
open Ref.Conn
variable {c : ConnectionInfo} {s d : Nat}

theorem ephemeral_iff {port : Nat} :
    likelyEphemeralPort port = true ↔ 32768 ≤ port := decide_eq_true_iff

theorem reversed_iff : reversed s d = true ↔ s < d := by
  rw [reversed]
  split
  · next h =>
    rw [Bool.and_eq_true, Bool.not_eq_true', ← Bool.not_eq_true, ephemeral_iff,
      ephemeral_iff] at h
    simp only [Bool.false_eq_true, false_iff]
    omega
  rw [Bool.or_eq_true, Bool.and_eq_true, Bool.not_eq_true', ← Bool.not_eq_true,
    ephemeral_iff, ephemeral_iff, decide_eq_true_eq]
  omega

theorem sort_of_lt (h : c.sPort < c.dPort) : sortConnectionInfo c = swapConnectionInfoOrder c := by
  rw [sortConnectionInfo, if_pos (reversed_iff.mpr h)]

theorem sort_of_le (h : c.dPort ≤ c.sPort) : sortConnectionInfo c = c := by
  rw [sortConnectionInfo, if_neg fun hr => not_lt.mpr h (reversed_iff.mp hr)]

/-- The larger port comes first. -/
theorem dPort_sort_le (c : ConnectionInfo) :
    (sortConnectionInfo c).dPort ≤ (sortConnectionInfo c).sPort := by
  by_cases h : c.sPort < c.dPort
  · rw [sort_of_lt h]
    exact h.le
  · rw [sort_of_le (not_lt.mp h)]
    exact not_lt.mp h

theorem sort_swap (h : c.sPort ≠ c.dPort ∨ c.sAddr = c.dAddr) :
    sortConnectionInfo (swapConnectionInfoOrder c) = sortConnectionInfo c := by
  rcases lt_trichotomy c.sPort c.dPort with hlt | heq | hlt
  · rw [sort_of_lt hlt]
    exact sort_of_le hlt.le
  · have haddr : c.sAddr = c.dAddr := h.resolve_left fun hne => hne heq
    have hself : swapConnectionInfoOrder c = c := by
      obtain ⟨sAddr, dAddr, sPort, dPort⟩ := c
      obtain rfl : sAddr = dAddr := haddr
      obtain rfl : sPort = dPort := heq
      rfl
    rw [hself]
  · rw [sort_of_le hlt.le]
    exact sort_of_lt hlt

theorem makeEgressKey_eq (c : ConnectionInfo) : makeEgressKey c =
      { dPort := (sortConnectionInfo c).dPort, sPort := (sortConnectionInfo c).sPort } := by
  rw [makeEgressKey, sortEgressKey, sortConnectionInfo]
  split <;> rfl

/-- The destination port the other end is seen with tells which way round a tuple is. -/
theorem fixup_client (h : c.sPort ≠ c.dPort) (hd : c.dPort ≠ 0) :
    fixupConnectionInfo c true c.dPort = c ∧
      fixupConnectionInfo (swapConnectionInfoOrder c) true c.dPort = c := by
  constructor
  · rw [fixupConnectionInfo]
    simp
  · rw [fixupConnectionInfo, if_neg hd, if_pos (.inl ⟨rfl, h⟩)]
    rfl

theorem fixup_server (h : c.sPort ≠ c.dPort) (hs : c.sPort ≠ 0) :
    fixupConnectionInfo c false c.sPort = c ∧
      fixupConnectionInfo (swapConnectionInfoOrder c) false c.sPort = c := by
  constructor
  · rw [fixupConnectionInfo, if_neg hs, if_neg]
    simp only [Bool.false_eq_true, false_and, not_false_iff, true_and, false_or]
    exact Ne.symm h
  · rw [fixupConnectionInfo, if_neg hs, if_pos (.inr ⟨Bool.false_ne_true, rfl⟩)]
    rfl

/-- A tuple is sorted as it is or as its reverse. -/
theorem sort_cases (c : ConnectionInfo) :
    sortConnectionInfo c = c ∨ sortConnectionInfo c = swapConnectionInfoOrder c := by
  rw [sortConnectionInfo]
  split
  · exact .inr rfl
  · exact .inl rfl

/-- Sorting is idempotent and forgets which end was the source, unless the ports leave it
open; the egress key is the pair of sorted ports. Each end of a connection, `c` being the
view of the client, turns its sorted tuple back into the view of the client. -/
theorem connection_order_canonical (c : ConnectionInfo) :
    sortConnectionInfo (sortConnectionInfo c) = sortConnectionInfo c ∧
      (c.sPort ≠ c.dPort ∨ c.sAddr = c.dAddr →
        sortConnectionInfo (swapConnectionInfoOrder c) = sortConnectionInfo c) ∧
      makeEgressKey c =
        { dPort := (sortConnectionInfo c).dPort, sPort := (sortConnectionInfo c).sPort } ∧
      (c.sPort ≠ c.dPort → c.sPort ≠ 0 → c.dPort ≠ 0 →
        fixupConnectionInfo (sortConnectionInfo c) true c.dPort = c ∧
          fixupConnectionInfo (sortConnectionInfo (swapConnectionInfoOrder c)) false
            (swapConnectionInfoOrder c).dPort = c) := by
  refine ⟨sort_of_le (dPort_sort_le c), sort_swap, makeEgressKey_eq c, fun hne hs hd => ?_⟩
  obtain ⟨hclient, hclient'⟩ := fixup_client hne hd
  obtain ⟨hserver, hserver'⟩ := fixup_server hne hs
  rw [sort_swap (.inl hne)]
  rcases sort_cases c with hsort | hsort
  · rw [hsort]
    exact ⟨hclient, hserver⟩
  · rw [hsort]
    exact ⟨hclient', hserver'⟩

end Obi.Refine
