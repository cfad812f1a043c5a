import Obi.Lib.Splice

/-!
# The `sk_msg` a program edits, and the helpers that answer it

An `sk_msg` program sees one outgoing message: its bytes, and the window
`[data, data_end)` of them that is mapped right now. The three helpers that
move the window or change the length are the kernel's, so each call takes its
answer as an argument: a theorem that quantifies over the answers holds for
every pattern of failures and of short windows.

A helper either fails and leaves the message as it was, or does exactly its
job. `bpf_msg_pull_data` only moves the window; `bpf_msg_push_data` puts in
bytes nobody initialised, and `bpf_msg_pop_data` takes bytes out, and both
leave the window at the head of the message, as the kernel's recomputation
of the data pointers does.
-/

namespace Obi.Ref
open Lib Option

/-- The value a `u32` holds after a computation. -/
def u32 (n : Nat) : Nat := n % 4294967296

theorem u32_of_lt {n : Nat} (h : n < 4294967296) : u32 n = n := Nat.mod_eq_of_lt h

theorem u32_le (n : Nat) : u32 n ≤ n := Nat.mod_le _ _

/-- The mapped part of a message: `data` and `data_end` as offsets. -/
structure Window where
  (start stop : Nat)
deriving DecidableEq, Repr

/-- A message: `msg->size` is a `u32`, and the mapped window is part of it. A
null `data` pointer is no window. -/
structure SkMsg where
  bytes : List UInt8
  data : Option Window
  size_lt : bytes.length < 4294967296
  data_le : ∀ w, data = some w → w.start ≤ w.stop ∧ w.stop ≤ bytes.length

variable (m : SkMsg) {d bs : List UInt8} {len start stop k off : Nat} {ans : PullAnswer}
  {m' : SkMsg} {w : Window}

/-- `msg->size`. -/
def SkMsg.size : Nat := m.bytes.length

/-- What a `bpf_msg_pull_data` call answers: an error, success with a null
`data` pointer, or success with at most `avail` bytes mapped. -/
inductive PullAnswer where
  | err | null
  | ok (avail : Nat)
deriving DecidableEq, Repr

/-- A pull that maps all it was asked for: no message is longer. -/
def PullAnswer.full : PullAnswer := .ok 4294967295

/-- What a `bpf_msg_push_data` call answers: an error, or success with the
bytes the new room happens to hold and what is mapped at the head. -/
inductive PushAnswer where
  | err
  | ok (fill : Nat → UInt8) (head : Option Nat)

/-- What a `bpf_msg_pop_data` call answers. -/
inductive PopAnswer where
  | err
  | ok (head : Option Nat)
deriving DecidableEq, Repr

/-- The window at the head of a message of `len` bytes. -/
def headWindow (head : Option Nat) (len : Nat) : Option Window := head.map fun n => ⟨0, min n len⟩

theorem headWindow_le {head : Option Nat}
    (h : headWindow head len = some w) : w.start ≤ w.stop ∧ w.stop ≤ len := by
  cases head with
  | none => simp [headWindow] at h
  | some n =>
    simp only [headWindow, map_some, some.injEq] at h
    subst h
    exact ⟨Nat.zero_le _, min_le_right _ _⟩

/-- `bpf_msg_pull_data(msg, start, stop, 0)`; `none` is an error return. -/
def SkMsg.pullData (start stop : Nat) (ans : PullAnswer) : Option SkMsg :=
  if h : start < stop ∧ stop ≤ m.bytes.length then
    match ans with
    | .err => none
    | .null => some { m with data := none, data_le := by simp }
    | .ok avail =>
      some { m with
        data := some ⟨start, min stop (start + avail)⟩
        data_le := by
          intro w hw
          simp only [some.injEq] at hw
          subst hw
          simp only
          omega }
  else none

/-- `bpf_msg_push_data(msg, start, len, 0)`. -/
def SkMsg.pushData (start len : Nat) (ans : PushAnswer) : Option SkMsg :=
  if h : start ≤ m.bytes.length ∧ m.bytes.length + len < 4294967296 then
    match ans with
    | .err => none
    | .ok fill head =>
      let bytes := insertAt m.bytes start ((List.range len).map fill)
      some {
        bytes := bytes
        data := headWindow head bytes.length
        size_lt := by simpa [bytes] using h.2
        data_le := fun _ => headWindow_le }
  else none

/-- `bpf_msg_pop_data(msg, start, len, 0)`. -/
def SkMsg.popData (start len : Nat) (ans : PopAnswer) : Option SkMsg :=
  if start + len ≤ m.bytes.length then
    match ans with
    | .err => none
    | .ok head =>
      let bytes := removeAt m.bytes start len
      some {
        bytes := bytes
        data := headWindow head bytes.length
        size_lt := Nat.lt_of_le_of_lt (length_removeAt_le _ _ _) m.size_lt
        data_le := fun _ => headWindow_le }
  else none

/-- The first `k` mapped bytes. `none` is the branch the code takes on
`!data || data + k > data_end`. -/
def SkMsg.view (k : Nat) : Option (List UInt8) := match m.data with
  | none => none
  | some w =>
    if w.start + k > w.stop then none else some (slice m.bytes w.start k)

/-- Every mapped byte, for the loops that compare each pointer with
`data_end`; `none` on a null `data` pointer. -/
def SkMsg.mapped : Option (List UInt8) :=
  m.data.map fun w => slice m.bytes w.start (w.stop - w.start)

/-- A pull and the read that follows it: `none` when the pull failed, `some
none` when it succeeded and mapped fewer than `k` bytes. The window it moves is
not kept: the programs that read this way pull again before every read. -/
def SkMsg.pullView (start stop k : Nat) (ans : PullAnswer) : Option (Option (List UInt8)) :=
  (m.pullData start stop ans).map fun m' => m'.view k

/-- Bytes stored from `data + off` on. The store is made only when it ends
inside the window, which every caller has compared with `data_end` first. -/
def SkMsg.store (off : Nat) (bs : List UInt8) : SkMsg := match hd : m.data with
  | none => m
  | some w =>
    if h : w.start + off + bs.length ≤ w.stop then
      have hw := m.data_le w hd
      have hlen : (overwriteAt m.bytes (w.start + off) bs).length =
          m.bytes.length := length_overwriteAt (Nat.le_trans h hw.2)
      { bytes := overwriteAt m.bytes (w.start + off) bs
        data := m.data
        size_lt := by rw [hlen]; exact m.size_lt
        data_le := by rw [hlen]; exact m.data_le }
    else m

/-! ## What a successful call leaves behind -/

theorem SkMsg.pullData_some {m : SkMsg} (h : m.pullData start stop ans = some m') :
    m'.bytes = m.bytes ∧ start < stop ∧ stop ≤ m.bytes.length ∧
      ∀ w, m'.data = some w → w.start = start ∧ w.stop ≤ stop := by
  unfold SkMsg.pullData at h
  split at h
  · next hr =>
    cases ans with
    | err => simp at h
    | null =>
      simp only [some.injEq] at h
      subst h
      exact ⟨rfl, hr.1, hr.2, by simp⟩
    | ok avail =>
      simp only [some.injEq] at h
      subst h
      refine ⟨rfl, hr.1, hr.2, fun w hw => ?_⟩
      simp only [some.injEq] at hw
      subst hw
      exact ⟨rfl, min_le_left _ _⟩
  · simp at h

theorem SkMsg.pushData_some {m : SkMsg}
    {ans : PushAnswer} (h : m.pushData start len ans = some m') :
    ∃ fill : List UInt8, fill.length = len ∧
      m'.bytes = insertAt m.bytes start fill ∧ start ≤ m.bytes.length := by
  unfold SkMsg.pushData at h
  split at h
  · next hr =>
    cases ans with
    | err => simp at h
    | ok fill head =>
      simp only [some.injEq] at h
      subst h
      exact ⟨(List.range len).map fill, by simp, rfl, hr.1⟩
  · simp at h

theorem SkMsg.popData_some {m : SkMsg} {ans : PopAnswer} (h : m.popData start len ans = some m') :
    m'.bytes = removeAt m.bytes start len := by
  unfold SkMsg.popData at h
  split at h
  · cases ans with
    | err => simp at h
    | ok head =>
      simp only [some.injEq] at h
      subst h
      rfl
  · simp at h

theorem SkMsg.view_some {m : SkMsg} (h : m.view k = some d) :
    ∃ w, m.data = some w ∧ w.start + k ≤ w.stop ∧ d = slice m.bytes w.start k := by
  unfold SkMsg.view at h
  split at h
  · simp at h
  · next w hw =>
    split at h
    · simp at h
    · next hk =>
      simp only [some.injEq] at h
      exact ⟨w, hw, by omega, h.symm⟩

/-- What the code reads right after a pull is the message at the offset it
pulled. -/
theorem SkMsg.view_of_pullData {m : SkMsg}
        (hp : m.pullData start stop ans = some m') (hv : m'.view k = some d) :
    d = slice m.bytes start k ∧ start + k ≤ stop ∧ stop ≤ m.bytes.length := by
  obtain ⟨hb, -, hle, hw⟩ := SkMsg.pullData_some hp
  obtain ⟨w, hd, hk, rfl⟩ := SkMsg.view_some hv
  obtain ⟨hs, he⟩ := hw w hd
  rw [hb, hs]
  exact ⟨rfl, by omega, hle⟩

theorem SkMsg.length_view {m : SkMsg} (h : m.view k = some d) : d.length = k := by
  obtain ⟨w, hd, hk, rfl⟩ := SkMsg.view_some h
  have := m.data_le w hd
  rw [length_slice]
  omega

theorem SkMsg.pullView_some {m : SkMsg} (h : m.pullView start stop k ans = some (some d)) :
    d = slice m.bytes start k ∧ d.length = k ∧ start + k ≤ stop ∧ stop ≤ m.bytes.length := by
  unfold SkMsg.pullView at h
  cases hp : m.pullData start stop ans with
  | none => rw [hp] at h; simp at h
  | some m' =>
    rw [hp] at h
    simp only [map_some, some.injEq] at h
    obtain ⟨hd, hk, hle⟩ := SkMsg.view_of_pullData hp h
    exact ⟨hd, SkMsg.length_view h, hk, hle⟩

/-- A store inside what was just read is made. -/
theorem SkMsg.store_of_view {m : SkMsg}
    (hd : m.data = some w) (hv : m.view k = some d) (hk : off + bs.length ≤ k) :
    (m.store off bs).bytes = overwriteAt m.bytes (w.start + off) bs := by
  obtain ⟨w', hd', hle, -⟩ := SkMsg.view_some hv
  cases hd.symm.trans hd'
  unfold SkMsg.store
  split
  · next hn => rw [hd] at hn; cases hn
  · next w' hw' =>
    cases hd.symm.trans hw'
    rw [dif_pos (by omega)]

/-- A store right after a pull writes over the message at the offset it
pulled. -/
theorem SkMsg.store_of_pullData {m : SkMsg}
        (hp : m.pullData start stop ans = some m') (hv : m'.view k = some d)
    (hk : off + bs.length ≤ k) :
    (m'.store off bs).bytes = overwriteAt m.bytes (start + off) bs := by
  obtain ⟨hb, -, -, hw⟩ := SkMsg.pullData_some hp
  obtain ⟨w, hd, -, -⟩ := SkMsg.view_some hv
  rw [SkMsg.store_of_view hd hv hk, hb, (hw w hd).1]

/-! ## Which answers show the bytes asked for -/

/-- The answer maps at least `k` bytes. -/
def PullAnswer.shows (ans : PullAnswer) (k : Nat) : Bool := match ans with
  | .ok avail => decide (k ≤ avail)
  | _ => false

theorem SkMsg.pullView_shows {m : SkMsg}
    (hk : 0 < k) (hle : start + k ≤ m.bytes.length) (h : ans.shows k = true) :
    m.pullView start (start + k) k ans = some (some (slice m.bytes start k)) := by
  cases ans with
  | err | null => cases h
  | ok avail =>
    have havail : k ≤ avail := by simpa [PullAnswer.shows] using h
    unfold SkMsg.pullView SkMsg.pullData
    rw [dif_pos ⟨by omega, hle⟩]
    simp only [map_some, SkMsg.view]
    rw [if_neg (by omega)]

theorem SkMsg.pullView_not_shows {m : SkMsg} (h : ans.shows k = false) (d : List UInt8) :
    m.pullView start (start + k) k ans ≠ some (some d) := by
  intro hd
  unfold SkMsg.pullView SkMsg.pullData at hd
  split at hd
  · cases ans with
    | err | null => cases hd
    | ok avail =>
      have havail : avail < k := by simpa [PullAnswer.shows] using h
      simp only [map_some, SkMsg.view] at hd
      rw [if_pos (by omega)] at hd
      cases hd
  · cases hd

end Obi.Ref
