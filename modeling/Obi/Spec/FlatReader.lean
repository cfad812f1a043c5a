import Obi.Ref.LargeBuffer

/-!
# A reader of a flat byte slice

What the large buffer is for: a byte string with an integer cursor. The bound
is a fixed limit or the length of the string, so a string that grows moves the
bound of an unlimited reader and not that of a limited one. The fields say
that the cursor stays inside the bound and the bound inside the string; every
call has to give them back.
-/

namespace Obi.Spec
open Ref (ReaderError ReaderValue ReaderSource ReaderOp CallRecord)

structure FlatReader where
  data : List UInt8
  pos : Nat
  limit : Option Nat
  pos_le : pos ≤ limit.getD data.length
  limit_le : limit.getD data.length ≤ data.length

namespace FlatReader

def bound (f : FlatReader) : Nat := f.limit.getD f.data.length

def remaining (f : FlatReader) : Nat := f.bound - f.pos

/-- The unread bytes. -/
def unread (f : FlatReader) : List UInt8 := (f.data.drop f.pos).take f.remaining

/-- The reader with its cursor `n` bytes on. -/
def forward (f : FlatReader) (n : Nat) (h : n ≤ f.remaining) : FlatReader :=
  { f with
    pos := f.pos + n
    pos_le := by
      have hpos := f.pos_le
      simp only [remaining, bound] at h
      omega }

def rewind (f : FlatReader) : FlatReader := { f with pos := 0, pos_le := Nat.zero_le _ }

def append (f : FlatReader) (more : List UInt8) : FlatReader where
  data := f.data ++ more
  pos := f.pos
  limit := f.limit
  pos_le := by
    have h := f.pos_le
    cases hl : f.limit with
    | none =>
      rw [hl] at h
      simp only [Option.getD_none, List.length_append] at h ⊢
      omega
    | some e => rwa [hl] at h
  limit_le := by
    have h := f.limit_le
    cases hl : f.limit with
    | none => exact Nat.le_refl _
    | some e =>
      rw [hl] at h
      simp only [Option.getD_some, List.length_append] at h ⊢
      omega

section
variable {data : List UInt8} {offset endOff : Int}
  (h : ¬ (endOff < offset ∨ (data.length : Int) < endOff))
include h

theorem offset_le : offset.toNat ≤ (some endOff.toNat).getD data.length := by
  simp only [Option.getD_some]
  omega

theorem endOff_le : (some endOff.toNat).getD data.length ≤ data.length := by
  simp only [Option.getD_some]
  omega

end

/-- A reader of `data`, over all of it or over the part a limited reader
is asked for. -/
def openReader (data : List UInt8) : ReaderSource → Except ReaderError FlatReader
  | .newReader => .ok ⟨data, 0, none, Nat.zero_le _, Nat.le_refl _⟩
  | .newLimitedReader offset endOff =>
    if offset < 0 ∨ (data.length : Int) < offset then
      .error (.offsetRange offset data.length)
    else if h : endOff < offset ∨ (data.length : Int) < endOff then
      .error (.endRange endOff offset data.length)
    else
      .ok ⟨data, offset.toNat, some endOff.toNat, offset_le h, endOff_le h⟩

theorem toNat_le (f : FlatReader) {n : Int} (h : 0 ≤ n ∧ n ≤ f.remaining) :
    n.toNat ≤ f.remaining := by
  omega

/-- The next `n` bytes, with the cursor moved past them, or `e` if there are
not that many. -/
def takeN (f : FlatReader) (n : Int) (e : ReaderError) :
    Except ReaderError (List UInt8) × FlatReader :=
  if h : 0 ≤ n ∧ n ≤ f.remaining then
    (.ok (f.unread.take n.toNat), f.forward n.toNat (f.toNat_le h))
  else (.error e, f)

/-- The distance to the first `c` among the unread bytes. -/
def find (f : FlatReader) (c : UInt8) : Option Nat := f.unread.findIdx? (· == c)

theorem length_unread (f : FlatReader) : f.unread.length = f.remaining := by
  have hlim := f.limit_le
  simp only [unread, remaining, bound, List.length_take, List.length_drop]
  omega

variable {f : FlatReader}

theorem find_lt {c : UInt8} {i : Nat} (h : f.find c = some i) : i < f.remaining := by
  rw [← length_unread]
  exact (List.findIdx?_eq_some_iff_getElem.1 h).1

def result (f : FlatReader) : ReaderOp → Except ReaderError ReaderValue × FlatReader
  | .readN n => match f.takeN n (.requested .readN n f.remaining) with
    | (.ok b, f') => (.ok (.bytes b), f')
    | (.error e, _) => (.error e, f)
  | .peek n => match f.takeN n (.requested .peek n f.remaining) with
    | (.ok b, _) => (.ok (.bytes b), f)
    | (.error e, _) => (.error e, f)
  | .skip n => match f.takeN n (.requested .skip n f.remaining) with
    | (.ok _, f') => (.ok .done, f')
    | (.error e, _) => (.error e, f)
  | .read len =>
    if f.remaining = 0 then (.error .eof, f)
    else
      (.ok (.bytes (f.unread.take len)), f.forward (min len f.remaining) (Nat.min_le_right _ _))
  | .readCStr => match h : f.find 0 with
    | none => (.error .noNull, f)
    | some i => (.ok (.bytes (f.unread.take i)), f.forward (i + 1) (find_lt h))
  | .indexByte c => match f.find c with
    | none => (.ok (.value (-1)), f)
    | some i => (.ok (.value i), f)
  | .bytes => (.ok (.bytes f.unread), f)
  | .reset => (.ok .done, f.rewind)
  | .readScalar k => match f.takeN k.width (.requested .readN k.width f.remaining) with
    | (.ok b, f') => (.ok (.value (k.decode b)), f')
    | (.error e, _) => (.error e, f)
  | .appendChunk more => (.ok .done, f.append more)

def run (f : FlatReader) : List ReaderOp → List CallRecord
  | [] => []
  | op :: ops =>
    let f' := (f.result op).2
    ⟨(f.result op).1, f.pos, f'.pos, f'.remaining⟩ :: f'.run ops

theorem takeN_ok {n : Int} (e : ReaderError) (h : 0 ≤ n ∧ n ≤ f.remaining) : f.takeN n e
      = (.ok (f.unread.take n.toNat), f.forward n.toNat (by omega)) := by
  rw [takeN, dif_pos h]

theorem takeN_error {n : Int} (e : ReaderError)
    (h : ¬ (0 ≤ n ∧ n ≤ f.remaining)) : f.takeN n e = (.error e, f) := by
  rw [takeN, dif_neg h]

/-- A call that fails leaves the reader as it was. -/
theorem result_error {op : ReaderOp} {e : ReaderError}
    (h : (f.result op).1 = .error e) : (f.result op).2 = f := by
  cases op with
  | readN n =>
    by_cases hn : 0 ≤ n ∧ n ≤ f.remaining
    · simp [result, takeN_ok _ hn] at h
    · simp [result, takeN_error _ hn]
  | peek n =>
    by_cases hn : 0 ≤ n ∧ n ≤ f.remaining
    · simp [result, takeN_ok _ hn]
    · simp [result, takeN_error _ hn]
  | skip n =>
    by_cases hn : 0 ≤ n ∧ n ≤ f.remaining
    · simp [result, takeN_ok _ hn] at h
    · simp [result, takeN_error _ hn]
  | readScalar k =>
    by_cases hn : 0 ≤ (k.width : Int) ∧ (k.width : Int) ≤ f.remaining
    · simp [result, takeN_ok _ hn] at h
    · simp [result, takeN_error _ hn]
  | read len =>
    simp only [result] at h ⊢
    split at h
    · next hz => rw [if_pos hz]
    · cases h
  | readCStr =>
    simp only [result] at h ⊢
    split at h
    · rfl
    · cases h
  | indexByte c =>
    simp only [result]
    split <;> rfl
  | bytes => rfl
  | reset | appendChunk more => cases h

end FlatReader
end Obi.Spec
