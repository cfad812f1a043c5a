import Obi.Ref.Common

/-!
# The bitmap of the PIDs the kernel lets through

`PIDBitmap` has the words it wrote to a BPF map, one bit a PID. `Rebuild` collects the words
the PIDs of the filter want, clears those no PID wants any more, and writes the ones that
differ until a write fails.

The PIDs of the filter, the order of a `range` over a map and the writes that fail are
passed in.
-/

namespace Obi.Ref
open Lib

/-- `PIDBitmapWords`. -/
def pidBitmapWords : Nat := 65536

/-- The words as last written to the BPF map. -/
structure PIDBitmap where
  words : Nat → Nat

/-- What a call of `Rebuild` reads. -/
structure RebuildReads where
  pids : List PID
  nodup : pids.Nodup
  order : List (Σ _ : Nat, Nat) → List (Σ _ : Nat, Nat)
  perm : ∀ l, (order l).Perm l
  putFails : Nat → Bool

/-- Two PIDs, the words in the other order, and a write that fails. -/
instance : Inhabited RebuildReads :=
  ⟨⟨[1, 70], by decide, List.reverse, List.reverse_perm, fun word => word == 1⟩⟩

namespace PIDBitmap

def contains (b : PIDBitmap) (pid : Nat) : Bool :=
  decide (pid / 64 < pidBitmapWords) && (b.words (pid / 64) &&& 1 <<< (pid % 64)) != 0

/-- A round of the loop over the PIDs, on `want` and `added`. -/
def wantPID (b : PIDBitmap) (s : Table Nat Nat × List PID) (pid : Nat) : Table Nat Nat × List PID :=
  if pid ≥ pidBitmapWords * 64 then s
  else
    (s.1.insert (pid / 64) ((s.1.lookup (pid / 64)).getD 0 ||| 1 <<< (pid % 64)),
      if b.contains pid then s.2 else s.2 ++ [pid])

/-- A round of the loop over the words. -/
def wantClear (b : PIDBitmap) (want : Table Nat Nat) (word : Nat) : Table Nat Nat :=
  if b.words word ≠ 0 ∧ want.lookup word = none then want.insert word 0 else want

/-- The loop that writes, on the bitmap and the map, with the word that could not be
written. -/
def putWords (putFails : Nat → Bool) : List (Σ _ : Nat, Nat) → PIDBitmap × (Nat → Nat) →
    (PIDBitmap × (Nat → Nat)) × Option Nat
  | [], s => (s, none)
  | e :: rest, s =>
    if s.1.words e.1 = e.2 then putWords putFails rest s
    else if putFails e.1 then (s, some e.1)
    else putWords putFails rest (⟨Function.update s.1.words e.1 e.2⟩, Function.update s.2 e.1 e.2)

/-- `Rebuild`, on the bitmap and the map, with the PIDs that were added and the error. -/
def rebuild (s : PIDBitmap × (Nat → Nat)) (reads : RebuildReads) :
    (PIDBitmap × (Nat → Nat)) × List PID × Option Nat :=
  let scan := reads.pids.foldl s.1.wantPID (∅, [])
  let want := (List.range pidBitmapWords).foldl s.1.wantClear scan.1
  let put := putWords reads.putFails (reads.order want.entries) s
  (put.1, scan.2.filter put.1.1.contains, put.2)

end PIDBitmap
end Obi.Ref
