import Obi.Ref.Http1Inject

/-!
# When the HTTP/1 header line goes in whole

`write_msg_traceparent` makes room before it knows whether it can reach the
room: the push comes first, and the pull and the bounds check after it can still
fail. There is no rollback on this path, so a failure there leaves the bytes the
push happened to put in. The theorem at the end says exactly when that does not
happen. The one byte too many the bounds check asks for is harmless: the search
for the line end already stops one byte short of the window.
-/

namespace Obi.Refine
open Lib Ref

/-- A message as the HTTP/1 programs get it, mapped from byte 0 on. -/
def headMsg (bytes : List UInt8) (h : bytes.length < 4294967296) (head : Option Nat) : SkMsg :=
  ⟨bytes, headWindow head bytes.length, h, fun _ => headWindow_le⟩

/-- The injection either did nothing or put the line after the first newline. -/
def LineInjected (orig : List UInt8) (tp : TpInfo) (r : Bool × SkMsg) : Prop :=
  (r.1 = false ∧ r.2.bytes = orig) ∨ (r.1 = true ∧ ∃ nl, orig.getD nl 0 = 0x0a ∧ nl < orig.length ∧
      (∀ j < nl, orig.getD j 0 ≠ 0x0a) ∧
      r.2.bytes = insertAt orig (nl + 1) (makeTpString tp))

/-- The window after the push reaches past the line: the pull mapped it, or it
failed and the push had left it mapped. -/
def mapsLine (ans : Http1Answers) (nl : Nat) : Bool := match ans.join, ans.push with
  | .ok avail, _ => decide (nl + 1 + tpSize + 1 ≤ avail)
  | .err, .ok _ (some n) => decide (nl + 1 + tpSize + 1 ≤ n)
  | _, _ => false

/-! ## The search for the line end -/

variable {ans : Http1Answers} {k nl len : Nat}

theorem memcharPosFrom_some {hay : List UInt8} {needle : UInt8} {left i : Nat}
    (h : memcharPosFrom hay needle left i = some k) :
    k + 2 ≤ hay.length ∧ hay.getD k 0 = needle ∧ ∀ j, i ≤ j → j < k → hay.getD j 0 ≠ needle := by
  fun_induction memcharPosFrom hay needle left i with
  | case1 | case2 => cases h
  | case3 left i hlen hb =>
    cases h
    exact ⟨by omega, hb, fun j hj hk => absurd hk (by omega)⟩
  | case4 left i hlen hb ih =>
    obtain ⟨h2, h3, h4⟩ := ih h
    refine ⟨h2, h3, fun j hj hk => ?_⟩
    rcases eq_or_lt_of_le hj with rfl | hj
    · exact hb
    · exact h4 j hj hk

theorem getD_slice_zero {xs : List UInt8} {n : Nat} (h : k < n) :
    (slice xs 0 n).getD k 0 = xs.getD k 0 := by
  simp [slice, h]

variable {head : Option Nat} {m : SkMsg}

/-- A newline found in the window is the first of the message, and not the last
byte of it. -/
theorem newline_found {bytes : List UInt8} {h : bytes.length < 4294967296}
    (hnl : findFirstPosOf (headMsg bytes h head).mapped 0x0a = some nl) :
    nl + 2 ≤ bytes.length ∧ bytes.getD nl 0 = 0x0a ∧ ∀ j < nl, bytes.getD j 0 ≠ 0x0a := by
  cases head with
  | none => cases hnl
  | some n =>
    have hmap : (headMsg bytes h (some n)).mapped = some (slice bytes 0 (min n bytes.length)) := rfl
    rw [hmap] at hnl
    obtain ⟨hlen, hbyte, hfst⟩ := memcharPosFrom_some hnl
    rw [length_slice] at hlen
    have hk : nl < min n bytes.length := by omega
    refine ⟨by omega, by rw [← getD_slice_zero hk]; exact hbyte, fun j hj => ?_⟩
    rw [← getD_slice_zero (lt_trans hj hk)]
    exact hfst j (Nat.zero_le j) hj

/-! ## The room and the window over it -/

/-- The message after the push, and after the pull whose result nobody looks
at. -/
structure Joined (ans : Http1Answers) (orig : List UInt8) (nl : Nat) (m : SkMsg) : Prop where
  bytes : ∃ fill, fill.length = tpSize ∧ m.bytes = insertAt orig (nl + 1) fill
  start : ∀ w, m.data = some w → w.start = 0
  mapped : (m.view (nl + 1 + tpSize + 1)).isSome = mapsLine ans nl

theorem headWindow_start {w : Window} (h : headWindow head len = some w) : w.start = 0 := by
  cases head with
  | none => cases h
  | some n => cases h; rfl

/-- What a read of `k` bytes at the head of a message comes to. -/
theorem view_isSome (hd : m.data = headWindow head m.bytes.length) (hk : k ≤ m.bytes.length) :
    (m.view k).isSome = head.any fun n => decide (k ≤ n) := by
  cases head with
  | none => rw [SkMsg.view, hd]; rfl
  | some n =>
    have hd : m.data = some ⟨0, min n m.bytes.length⟩ := hd
    rw [SkMsg.view, hd, Option.any_some]
    simp only [zero_add]
    by_cases hn : k ≤ n
    · rw [if_neg (by omega), decide_eq_true hn]
      rfl
    · rw [if_pos (by omega), decide_eq_false hn]
      rfl

theorem pushed_head {m' : SkMsg} {start : Nat} {ans : PushAnswer}
    (h : m.pushData start len ans = some m') :
    ∃ fill head, ans = .ok fill head ∧ m'.data = headWindow head m'.bytes.length := by
  unfold SkMsg.pushData at h
  split at h
  · cases ans with
    | err => cases h
    | ok fill head =>
      cases h
      exact ⟨fill, head, rfl, rfl⟩
  · cases h

/-- How much is mapped from the head on after a pull of the whole message,
where a failed one leaves what was mapped before. -/
def headAfterPull (pull : PullAnswer) (head : Option Nat) : Option Nat := match pull with
  | .err => head
  | .null => none
  | .ok avail => some avail

theorem pulled_head (hpos : 0 < m.bytes.length)
    (hd : m.data = headWindow head m.bytes.length) (pull : PullAnswer) :
    ((m.pullData 0 m.size pull).getD m).bytes = m.bytes ∧ ((m.pullData 0 m.size pull).getD m).data =
        headWindow (headAfterPull pull head) m.bytes.length := by
  have hrange : 0 < m.size ∧ m.size ≤ m.bytes.length := ⟨hpos, le_rfl⟩
  unfold SkMsg.pullData
  rw [dif_pos hrange]
  cases pull with
  | err => exact ⟨rfl, hd⟩
  | null => exact ⟨rfl, rfl⟩
  | ok avail =>
    refine ⟨rfl, ?_⟩
    show some (Window.mk 0 (min m.size (0 + avail))) = some ⟨0, min avail m.bytes.length⟩
    rw [zero_add, min_comm, SkMsg.size]

theorem mapsLine_eq {fill : Nat → UInt8} (hpush : ans.push = .ok fill head) (nl : Nat) :
    mapsLine ans nl =
      (headAfterPull ans.join head).any fun n => decide (nl + 1 + tpSize + 1 ≤ n) := by
  rw [mapsLine, hpush]
  cases ans.join with
  | err => cases head <;> rfl
  | null | ok avail => rfl

theorem join_joined {orig : List UInt8} {h : orig.length < 4294967296} (hnl : nl + 2 ≤ orig.length)
    (hpush : (headMsg orig h head).pushData (nl + 1) tpSize ans.push = some m) :
    Joined ans orig nl ((m.pullData 0 m.size ans.join).getD m) := by
  obtain ⟨fill, hfill, hbs, -⟩ := SkMsg.pushData_some hpush
  obtain ⟨junk, head', hans, hdata⟩ := pushed_head hpush
  have hlen : m.bytes.length = orig.length + tpSize := by
    rw [hbs, length_insertAt, hfill]
    rfl
  obtain ⟨hbs', hdata'⟩ := pulled_head (by omega) hdata ans.join
  refine ⟨⟨fill, hfill, hbs'.trans hbs⟩, fun w hw => ?_, ?_⟩
  · exact headWindow_start (hdata'.symm.trans hw)
  rw [mapsLine_eq hans]
  refine view_isSome (by rw [hbs']; exact hdata') ?_
  rw [hbs']
  omega

/-- The injection either happens or leaves everything alone, exactly when no
line end is in reach, no room can be made, or the line can be reached once the
room is there. -/
theorem http1_injection_iff (orig : List UInt8) (h : orig.length < 4294967296)
    (head : Option Nat) (ans : Http1Answers) (tp : TpInfo) :
    LineInjected orig tp (writeMsgTraceparent ans (headMsg orig h head) tp) ↔
      ∀ nl, findFirstPosOf (headMsg orig h head).mapped 0x0a = some nl →
        (headMsg orig h head).pushData (nl + 1) tpSize ans.push = none ∨
          mapsLine ans nl = true := by
  unfold writeMsgTraceparent
  cases hfind : findFirstPosOf (headMsg orig h head).mapped 0x0a with
  | none => exact ⟨fun _ nl hnl => (by cases hnl), fun _ => .inl ⟨rfl, rfl⟩⟩
  | some nl =>
    obtain ⟨hlen, hbyte, hfst⟩ := newline_found hfind
    simp only [extendAndWriteTp]
    cases hpush : (headMsg orig h head).pushData (nl + 1) tpSize ans.push with
    | none => exact ⟨fun _ k hk => by cases hk; exact .inl hpush, fun _ => .inl ⟨rfl, rfl⟩⟩
    | some m =>
      have hj := join_joined hlen hpush
      simp only []
      generalize (m.pullData 0 m.size ans.join).getD m = m' at hj ⊢
      obtain ⟨fill, hfill, hbs⟩ := hj.bytes
      cases hview : m'.view (nl + 1 + tpSize + 1) with
      | none =>
        have hmaps : mapsLine ans nl = false := by rw [← hj.mapped, hview]; rfl
        constructor
        · -- the junk is still there: the message is longer than it was
          rintro (⟨-, hsame⟩ | ⟨hfalse, -⟩)
          · have hgrow := congrArg List.length hsame
            rw [hbs, length_insertAt, hfill] at hgrow
            simp only [tpSize] at hgrow
            omega
          · cases hfalse
        · intro hall
          rcases hall nl rfl with hnone | hline
          · rw [hpush] at hnone; cases hnone
          · rw [hmaps] at hline; cases hline
      | some d =>
        have hmaps : mapsLine ans nl = true := by rw [← hj.mapped, hview]; rfl
        refine ⟨fun _ k hk => by cases hk; exact .inr hmaps, fun _ => ?_⟩
        refine .inr ⟨rfl, nl, hbyte, by omega, hfst, ?_⟩
        obtain ⟨w, hd, -, -⟩ := SkMsg.view_some hview
        rw [SkMsg.store_of_view hd hview (by rw [length_makeTpString]; omega),
          hj.start w hd, zero_add, hbs]
        exact overwriteAt_insertAt (by omega) (by rw [length_makeTpString, hfill])

/-- A request line, one header, the empty line. -/
def sampleRequest : List UInt8 :=
  [0x47, 0x45, 0x54, 0x20, 0x2f, 0x20, 0x48, 0x54, 0x54, 0x50, 0x2f, 0x31, 0x2e, 0x31,
    0x0d, 0x0a, 0x48, 0x6f, 0x73, 0x74, 0x3a, 0x20, 0x61, 0x0d, 0x0a, 0x0d, 0x0a]

theorem http1_injection_iff_sample : LineInjected sampleRequest sampleTp
      (writeMsgTraceparent ⟨.ok (fun _ => 0xaa) (some 16), .full⟩
        (headMsg sampleRequest (by decide) (some 28)) sampleTp) := by
  refine (http1_injection_iff sampleRequest (by decide) (some 28)
    ⟨.ok (fun _ => 0xaa) (some 16), .full⟩ sampleTp).mpr fun nl hnl => .inr ?_
  have hfst : findFirstPosOf (headMsg sampleRequest (by decide) (some 28)).mapped 0x0a =
      some 15 := by decide +kernel
  cases hfst.symm.trans hnl
  decide +kernel

/-- The push splits the request after its first line, which is all that stays
mapped, and the pull that should join it again fails: the call reports failure
and leaves 70 bytes nobody wrote. -/
theorem http1_injection_leaves_junk : (writeMsgTraceparent ⟨.ok (fun _ => 0xaa) (some 16), .err⟩
        (headMsg sampleRequest (by decide) (some 28)) sampleTp).1 = false ∧
      (writeMsgTraceparent ⟨.ok (fun _ => 0xaa) (some 16), .err⟩
        (headMsg sampleRequest (by decide) (some 28)) sampleTp).2.bytes =
          insertAt sampleRequest 16 (List.replicate 70 0xaa) ∧
      ¬ LineInjected sampleRequest sampleTp
        (writeMsgTraceparent ⟨.ok (fun _ => 0xaa) (some 16), .err⟩
          (headMsg sampleRequest (by decide) (some 28)) sampleTp) := by
  have hfalse : (writeMsgTraceparent ⟨.ok (fun _ => 0xaa) (some 16), .err⟩
      (headMsg sampleRequest (by decide) (some 28)) sampleTp).1 = false := by decide +kernel
  have hjunk : (writeMsgTraceparent ⟨.ok (fun _ => 0xaa) (some 16), .err⟩
      (headMsg sampleRequest (by decide) (some 28)) sampleTp).2.bytes =
        insertAt sampleRequest 16 (List.replicate 70 0xaa) := by decide +kernel
  refine ⟨hfalse, hjunk, ?_⟩
  rintro (⟨-, hsame⟩ | ⟨htrue, -⟩)
  · exact absurd hsame (by decide +kernel)
  · cases htrue

end Obi.Refine
