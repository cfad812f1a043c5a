import Mathlib.Data.UInt

/-!
# Reused memory

A reader hands out views of what it reads. Most lie in memory that stays as it
is; the others lie at the front of a block the reader writes into again with its
next such view, unless that one is too long for the block and gets a block of
its own. A view is looked at later than it is handed out, and then shows what the
block holds by then.
-/

namespace Obi.Lib
open List
variable {β : Type}

/-- The blocks that were given up, and the one in use. -/
structure Scratch (β : Type) where
  older : List (List β)
  current : List β
deriving DecidableEq, Repr

/-- A view: elements that stay as they are, or a part of a block. -/
inductive Slice (β : Type)
  | fixed (w : List β)
  | scratch (block off len : Nat)
deriving DecidableEq, Repr

/-- `s[lo:hi]`. -/
def Slice.slice : Slice β → Nat → Nat → Slice β
  | .fixed w, lo, hi => .fixed ((w.drop lo).take (hi - lo))
  | .scratch block off len, lo, hi => .scratch block (off + lo) (min (len - lo) (hi - lo))

namespace Scratch

/-- No block was made yet. -/
def none : Scratch β := ⟨[], []⟩

def cap (m : Scratch β) : Nat := m.current.length

/-- The memory after `w` was written to it. -/
def write (m : Scratch β) (w : List β) : Scratch β :=
  if m.cap < w.length then ⟨m.older ++ [m.current], w⟩
  else ⟨m.older, w ++ m.current.drop w.length⟩

/-- The view of the last `n` elements written. -/
def view (m : Scratch β) (n : Nat) : Slice β := .scratch m.older.length 0 n

def block (m : Scratch β) (i : Nat) : List β :=
  if i = m.older.length then m.current else (m.older[i]?).getD []

/-- What a view shows. -/
def load (m : Scratch β) : Slice β → List β
  | .fixed w => w
  | .scratch i off len => ((m.block i).drop off).take len

/-- The view is one of this memory. -/
def Has (m : Scratch β) : Slice β → Prop
  | .fixed _ => True
  | .scratch i _ _ => i ≤ m.older.length

/-- The view lies in the block in use. -/
def Shares (m : Scratch β) : Slice β → Prop
  | .fixed _ => False
  | .scratch i _ _ => i = m.older.length

section
variable (m : Scratch β)
include m

theorem load_slice (s : Slice β) (lo hi : Nat) :
    m.load (s.slice lo hi) = ((m.load s).drop lo).take (hi - lo) := by
  cases s with
  | fixed w => rfl
  | scratch i off len => rw [Slice.slice, load, load, ← drop_drop, drop_take, take_take, min_comm]

theorem cap_write (w : List β) : (m.write w).cap = max m.cap w.length := by
  rw [write]
  split
  · next h => exact (max_eq_right h.le).symm
  · next h =>
    rw [cap, length_append, length_drop]
    rw [cap] at h ⊢
    omega

theorem load_view_write (w : List β) : (m.write w).load ((m.write w).view w.length) = w := by
  rw [view, load, block, if_pos rfl, write]
  split
  · exact take_length
  · exact take_left

theorem has_view (n : Nat) : m.Has (m.view n) := Nat.le_refl _

end

variable {m : Scratch β} {s : Slice β} {w : List β}

theorem Has.write (h : m.Has s) (w : List β) : (m.write w).Has s := by
  cases s with
  | fixed v => trivial
  | scratch i off len =>
    rw [Scratch.write]
    split
    · rw [Has, length_append]
      exact Nat.le_add_right_of_le h
    · exact h

/-- The view of the last elements written is written over, as far as what is
written next goes. -/
theorem load_write_view (hfits : w.length ≤ m.cap) (n : Nat) : (m.write w).load (m.view n) =
      (w ++ (m.load (m.view n)).drop w.length).take (m.load (m.view n)).length := by
  have hload : m.load (m.view n) = m.current.take n := by
    rw [view, load, block, if_pos rfl, drop_zero]
  have hwrite : (m.write w).load (m.view n) = (w ++ m.current.drop w.length).take n := by
    rw [write, if_neg (not_lt.mpr hfits), view, load, block, if_pos rfl, drop_zero]
  rw [cap] at hfits
  apply ext_getElem?
  intro i
  grind

/-- A view in another block, or one that what is written is too long for, shows
what it showed before. -/
theorem load_write_of_not (hhas : m.Has s)
    (h : m.Shares s → m.cap < w.length) : (m.write w).load s = m.load s := by
  cases s with
  | fixed v => rfl
  | scratch i off len =>
    have hle : i ≤ m.older.length := hhas
    have hblk : (m.write w).block i = m.block i := by
      rw [Scratch.write]
      split
      · next hlong =>
        simp only [block, length_append, length_singleton]
        rw [if_neg (by omega)]
        split
        · next hi =>
          rw [hi, getElem?_append_right (le_rfl), Nat.sub_self]
          rfl
        · rw [getElem?_append_left (by omega)]
      · next hfits =>
        have hi : i ≠ m.older.length := fun hi => hfits (h hi)
        rw [block, block, if_neg hi, if_neg hi]
    rw [load, load, hblk]

/-- A view that is not written over is out of the way of all later writes. -/
theorem not_shares_write (hhas : m.Has s)
    (h : m.Shares s → m.cap < w.length) : ¬ (m.write w).Shares s := by
  cases s with
  | fixed v => exact id
  | scratch i off n =>
    intro hshare
    rw [write] at hshare
    split at hshare
    · have hi : i = (m.older ++ [m.current]).length := hshare
      have hle : i ≤ m.older.length := hhas
      rw [length_append, length_singleton] at hi
      omega
    · next hfits => exact hfits (h hshare)

/-- The view starts where its block does. -/
def AtFront : Slice β → Prop
  | .fixed _ => True
  | .scratch _ off _ => off = 0

/-- Behind what is written a view shows what it showed before. -/
theorem drop_load_write (hhas : m.Has s) (hfrt : AtFront s)
    (w : List β) : ((m.write w).load s).drop w.length = (m.load s).drop w.length := by
  by_cases hover : m.Shares s ∧ w.length ≤ m.cap
  · cases s with
    | fixed v => rfl
    | scratch i off n =>
      obtain rfl : off = 0 := hfrt
      obtain rfl : i = m.older.length := hover.1
      have hview := load_write_view hover.2 n
      rw [view] at hview
      apply ext_getElem?
      intro j
      grind
  · rw [load_write_of_not hhas]
    intro hshare
    exact Nat.lt_of_not_le fun hfits => hover ⟨hshare, hfits⟩

/-! ## Replaying writes -/

/-- The memory after these were written, one by one. -/
def writes (m : Scratch β) (ws : List (List β)) : Scratch β := ws.foldl write m

/-- What a view at the front of the block in use shows after these were written:
each is written over it, until one is too long for the block. -/
def leftBy (cap : Nat) : List (List β) → List β → List β
  | [], shown => shown
  | w :: ws, shown =>
    if cap < w.length then shown
    else leftBy cap ws ((w ++ shown.drop w.length).take shown.length)

theorem load_writes_apart (hhas : m.Has s)
    (hshare : ¬ m.Shares s) (ws : List (List β)) : (m.writes ws).load s = m.load s := by
  induction ws generalizing m with
  | nil => rfl
  | cons w ws ih =>
    have hno : m.Shares s → m.cap < w.length := fun h => absurd h hshare
    have hrest := ih (hhas.write w) (not_shares_write hhas hno)
    exact hrest.trans (load_write_of_not hhas hno)

theorem load_view_writes (m : Scratch β) (n : Nat) (ws : List (List β)) :
    (m.writes ws).load (m.view n) = leftBy m.cap ws (m.load (m.view n)) := by
  induction ws generalizing m with
  | nil => rfl
  | cons w ws ih =>
    rw [leftBy]
    split
    · next hlong =>
      have hno : m.Shares (m.view n) → m.cap < w.length := fun _ => hlong
      have hrest := load_writes_apart ((has_view m n).write w)
        (not_shares_write (has_view m n) hno) ws
      exact hrest.trans (load_write_of_not (has_view m n) hno)
    · next hlong =>
      have hfits : w.length ≤ m.cap := Nat.le_of_not_lt hlong
      have hcap : (m.write w).cap = m.cap := by rw [cap_write, max_eq_left hfits]
      have hview : (m.write w).view n = m.view n := by rw [view, view, write, if_neg hlong]
      have hrest := ih (m.write w)
      rw [hview, hcap, load_write_view hfits] at hrest
      exact hrest

end Scratch
end Obi.Lib
