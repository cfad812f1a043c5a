import Obi.Ref.TpInjector

/-!
# The write transaction is all or nothing

The preflight read is what makes a rollback possible at all: it pins the three
length bytes to the encoding of `payload_len`, so restoring them by storing
`payload_len` again is storing what was there. The bounds on the arguments do
the rest. They are `u32` comparisons, but the ones that could wrap are guarded
by the ones before them, so on the far side the frame lies inside the message,
the insertion point lies inside the frame, and the length bytes end before it.

`TransactionSound` says what each outcome promises about the bytes, and
`writeSocket_sound` proves it of every answer pattern.
-/

namespace Obi.Refine
open Lib Ref SkMsg

theorem length_frameLenBytes (len : Nat) : (h2FrameLenBytes len).length = 3 := rfl

theorem frameLenBytes_of_are {d : List UInt8} {len : Nat} (hd : d.length = 3)
    (h : h2FrameLenBytesAre d len = true) : d = h2FrameLenBytes len := by
  obtain ⟨a, b, c, rfl⟩ := List.length_eq_three.mp hd
  simp only [h2FrameLenBytesAre, List.getD_cons_zero, List.getD_cons_succ,
    Bool.and_eq_true, beq_iff_eq] at h
  obtain ⟨⟨h0, h1⟩, h2⟩ := h
  rw [h2FrameLenBytes, h0, h1, h2]

/-- The bounds an accepted transaction has, free of wrap-around. -/
theorem refuses_false {size fo pl io : Nat}
    (h : transactionRefuses size fo pl io = false) :
    pl + 69 ≤ 16384 ∧ fo + 9 + pl ≤ size ∧ fo + 9 ≤ io ∧ size + 69 < 4294967296 := by
  simp only [transactionRefuses, Bool.or_eq_false_iff, decide_eq_false_iff_not] at h
  simp only [u32, kH2DefaultMaxFrameSize, kH2TpHpackSize, kH2FrameHeaderLen] at h
  omega

/-- What an outcome promises about the bytes it leaves. -/
def TransactionSound (orig : List UInt8) (fo pl io : Nat)
    (expected : Option (ByteVec kH2TpHpackSize))
    (r : H2SocketTransactionOutcome × SkMsg) : Prop :=
  match r.1 with
  | .noMutation | .rollbackVerified => r.2.bytes = orig
  | .committed => ∃ field, expected = some field ∧ r.2.bytes =
      insertAt (overwriteAt orig fo (h2FrameLenBytes (pl + kH2TpHpackSize))) io field.val
  | .rollbackUncertain => True

section
variable {ans : TransactionAnswers} {m : SkMsg} {orig fill : List UInt8} {size fo pl io : Nat}
  (hm : m.bytes = insertAt orig io fill) (hfill : fill.length = kH2TpHpackSize)
  (hio : io ≤ orig.length) (hlen : slice orig fo 3 = h2FrameLenBytes pl)

include hm hfill hio hlen

/-- A verified rollback gives the original bytes back: the pop undoes the
insertion, and the length it stores is the one the preflight read. -/
theorem restoreSocket_bytes (hv : (h2RestoreSocketMessage ans m size fo pl io).1 = true) :
    (h2RestoreSocketMessage ans m size fo pl io).2.bytes = orig := by
  unfold h2RestoreSocketMessage at hv ⊢
  split at hv
  · simp at hv
  · next m1 hpop =>
    have hb1 : m1.bytes = orig := by
      rcases Option.or_eq_some_iff.mp hpop with h | ⟨-, h⟩ <;>
        rw [popData_some h, hm, removeAt_insertAt hio hfill]
    split at hv
    · simp at hv
    · next hsize =>
      rw [if_neg hsize]
      simp only [] at hv ⊢
      split at hv
      · simp at hv
      · next m2 hpull =>
        split at hv
        · simp at hv
        · next d hd =>
          have hlen' := length_frameLenBytes pl
          have hstr : (m2.store 0 (h2FrameLenBytes pl)).bytes =
              overwriteAt m1.bytes (fo + 0) (h2FrameLenBytes pl) := by
            rcases Option.or_eq_some_iff.mp hpull with h | ⟨-, h⟩ <;>
              exact store_of_pullData h hd (by rw [hlen']; simp)
          show (m2.store 0 (h2FrameLenBytes pl)).bytes = orig
          rw [hstr, hb1]
          exact overwriteAt_slice (by rw [hlen']; exact hlen)

/-- Starting the rollback from a message that only had bytes inserted is sound
whichever way it ends. -/
theorem rollback_sound {expected : Option (ByteVec kH2TpHpackSize)} :
    TransactionSound orig fo pl io expected
      (rollbackOutcome (h2RestoreSocketMessage ans m size fo pl io)) := by
  unfold rollbackOutcome TransactionSound
  cases hr : (h2RestoreSocketMessage ans m size fo pl io).1 with
  | true => exact restoreSocket_bytes hm hfill hio hlen hr
  | false => trivial

/-- Once the room is there, the transaction either commits the field and the
new length or rolls back. -/
theorem fillCommit_sound {field : ByteVec kH2TpHpackSize} (hfo : fo + 3 ≤ io) :
    TransactionSound orig fo pl io (some field) (h2FillAndCommit ans m size fo pl io field) := by
  unfold h2FillAndCommit
  simp only []
  split
  · exact rollback_sound hm hfill hio hlen
  · next m1 h₁ =>
    have hb1 := (pullData_some h₁).1.trans hm
    split
    · exact rollback_sound hb1 hfill hio hlen
    · next d1 hd1 =>
      have hb2 : (m1.store 0 field.val).bytes = insertAt orig io field.val := by
        rw [store_of_pullData h₁ hd1 (by rw [field.property]; simp), hm]
        exact overwriteAt_insertAt hio (by rw [field.property, hfill])
      split
      · exact rollback_sound hb2 field.property hio hlen
      · next m3 h3 =>
        have hb3 := (pullData_some h3).1.trans hb2
        split
        · exact rollback_sound hb3 field.property hio hlen
        · next d3 hd3 =>
          have hb4 : (h2StoreFrameLen m3 (pl + kH2TpHpackSize)).bytes =
              insertAt (overwriteAt orig fo (h2FrameLenBytes (pl + kH2TpHpackSize)))
                io field.val := by
            rw [h2StoreFrameLen, store_of_pullData h3 hd3
              (by rw [length_frameLenBytes]; simp), hb2]
            exact overwriteAt_insertAt_of_le (by rw [length_frameLenBytes]; exact hfo) hio
          refine ⟨field, rfl, ?_⟩
          -- joining the pieces maps the message, it does not change it
          cases hj : (h2StoreFrameLen m3 (pl + kH2TpHpackSize)).pullData 0
              (u32 (size + kH2TpHpackSize)) ans.join with
          | none => exact hb4
          | some m4 => exact (pullData_some hj).1.trans hb4

end

theorem writeSocket_sound (ans : TransactionAnswers) (msg : SkMsg)
    (fo pl io : Nat) (expected : Option (ByteVec kH2TpHpackSize)) :
    TransactionSound msg.bytes fo pl io expected
      (h2WriteSocketTransaction ans msg fo pl io expected) := by
  unfold h2WriteSocketTransaction
  simp only []
  split
  · exact rfl
  · next field =>
    split
    · exact rfl
    · next href =>
      obtain ⟨-, -, hlo, -⟩ := refuses_false (by simpa using href)
      split
      · exact rfl
      · next m1 h₁ =>
        have hb1 := (pullData_some h₁).1
        split
        · exact hb1
        · next m2 h₂ =>
          have hb2 : m2.bytes = msg.bytes := (pullData_some h₂).1.trans hb1
          split
          · exact hb2
          · next frame hframe =>
            split
            · exact hb2
            · next hare =>
              have hlen : slice msg.bytes fo 3 = h2FrameLenBytes pl := by
                have hread := (view_of_pullData h₂ hframe).1
                rw [hb1] at hread
                exact hread.symm.trans (frameLenBytes_of_are
                  (length_view hframe) (by simpa using hare))
              split
              · exact hb2
              · next m3 h3 =>
                obtain ⟨fill, hfill, hb3, hio⟩ := pushData_some h3
                rw [hb2] at hb3 hio
                exact fillCommit_sound hb3 hfill hio hlen (by omega)

/-- `write_h2_tp` drops a message exactly when the transaction it ran cannot tell
whether its rollback worked. -/
theorem writeH2Tp_drop_iff (env : HopEnv) (s : Chain) : (writeH2Tp env s).1 = .drop ↔
      (env.tailcallCtxMem = true ∧ s.cfg.rollback = true ∧ env.tpInfoMem = true ∧
        u32 (s.ctx.h2PayloadLen + kH2TpHpackSize) ≤ kH2DefaultMaxFrameSize ∧
        env.expectedMem = true) ∧
      (writeH2Transaction env s).1 = .rollbackUncertain := by
  unfold writeH2Tp
  split
  · next h => exact ⟨fun hd => (by cases hd), fun hd => absurd hd.1.1 h⟩
  next hctx =>
  split
  · next h => exact ⟨fun hd => (by cases hd), fun hd => absurd hd.1.2.1 h⟩
  next hcfg =>
  split
  · next h => exact ⟨fun hd => (by cases hd), fun hd => absurd hd.1.2.2.1 h⟩
  next htp =>
  split
  · next h => exact ⟨fun hd => (by cases hd), fun hd => absurd hd.1.2.2.2.1 (by omega)⟩
  next hlen =>
  split
  · next h => exact ⟨fun hd => (by cases hd), fun hd => absurd hd.1.2.2.2.2 h⟩
  next hexp =>
  have hguard : env.tailcallCtxMem = true ∧ s.cfg.rollback = true ∧ env.tpInfoMem = true ∧
      u32 (s.ctx.h2PayloadLen + kH2TpHpackSize) ≤ kH2DefaultMaxFrameSize ∧
      env.expectedMem = true :=
    ⟨not_not.mp hctx, not_not.mp hcfg, not_not.mp htp, Nat.le_of_not_lt hlen, not_not.mp hexp⟩
  split
  · next h => exact ⟨fun _ => ⟨hguard, by rw [h]⟩, fun _ => rfl⟩
  · next h => exact ⟨fun hd => (by cases hd), fun hd => by rw [h] at hd; cases hd.2⟩
  · next hunc _ h =>
    refine ⟨fun hd => (by cases hd), fun hd => ?_⟩
    rw [h] at hd
    exact absurd hd.2 hunc

/-- Injection is atomic: for every message, offsets and answers the transaction
leaves the original bytes, or the original with the field inserted and the three
length bytes rewritten, or says that it cannot tell, and then the message is
dropped. -/
theorem h2_injection_atomic (ans : TransactionAnswers) (msg : SkMsg)
    (frameOffset payloadLen injectOffset : Nat)
    (expected : Option (ByteVec kH2TpHpackSize)) (env : HopEnv) (s : Chain) :
    (match h2WriteSocketTransaction ans msg frameOffset payloadLen injectOffset expected with
      | (.noMutation, msg') | (.rollbackVerified, msg') => msg'.bytes = msg.bytes
      | (.committed, msg') => ∃ field, expected = some field ∧ msg'.bytes = insertAt
            (overwriteAt msg.bytes frameOffset (h2FrameLenBytes (payloadLen + kH2TpHpackSize)))
            injectOffset field.val
      | (.rollbackUncertain, _) => True) ∧
    ((writeH2Tp env s).1 = .drop ↔
      (env.tailcallCtxMem = true ∧ s.cfg.rollback = true ∧ env.tpInfoMem = true ∧
        u32 (s.ctx.h2PayloadLen + kH2TpHpackSize) ≤ kH2DefaultMaxFrameSize ∧
        env.expectedMem = true) ∧
      (writeH2Transaction env s).1 = .rollbackUncertain) := by
  refine ⟨?_, writeH2Tp_drop_iff env s⟩
  have h := writeSocket_sound ans msg frameOffset payloadLen injectOffset expected
  split <;> next hr => rw [hr] at h; exact h

end Obi.Refine
