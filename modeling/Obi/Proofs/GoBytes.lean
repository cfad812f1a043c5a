import Mathlib.Data.List.Find
import Obi.Spec.Text

/-!
# Fields and white space

No white space character has another one, or the start of one, behind its first
byte, so that what is around a character does not change whether it is one. The
fields of a line are then found piece by piece, and white space at its ends does
not count.
-/

namespace Obi.Refine
open Ref Spec List Nat

/-! ## White space characters -/

variable {w c text : List UInt8} {b : UInt8} {words : List (List UInt8)} {table : List (List UInt8)}
  {u t s whole field : List UInt8} {pos n : Nat}

theorem forall_mem_of_all {p : UInt8 → Prop} [DecidablePred p]
    (h : w.all (fun b => decide (p b)) = true) : ∀ b ∈ w, p b := by
  intro b hb
  exact of_decide_eq_true (all_eq_true.mp h b hb)

/-- The byte can stand behind the first byte of a character. -/
def Continues (b : UInt8) : Prop := 0x80 ≤ b ∧ b < 0xC0

instance (b : UInt8) : Decidable (Continues b) := inferInstanceAs (Decidable (_ ∧ _))

theorem whiteSpace_shape (hc : c ∈ whiteSpace) :
    ∃ b t, c = b :: t ∧ ¬ Continues b ∧ ∀ x ∈ t, Continues x := by
  have hall : ∀ c ∈ whiteSpace, c ≠ [] ∧ (c.take 1).all (fun b => ¬ Continues b) = true ∧
      c.tail.all (fun x => Continues x) = true := by decide
  obtain ⟨hne, hfst, hrest⟩ := hall c hc
  obtain ⟨b, t, rfl⟩ := exists_cons_of_ne_nil hne
  exact ⟨b, t, rfl, forall_mem_of_all hfst b (mem_singleton_self b), forall_mem_of_all hrest⟩

/-- What follows does not make white space of the bytes in front of it. -/
theorem whiteSpace_append (hc : c ∈ whiteSpace) (hu : u ≠ [])
    (ht : ∀ b, t.head? = some b → ¬ Continues b) : c <+: u ++ t ↔ c <+: u := by
  refine ⟨fun h => ?_, fun h => h.trans (prefix_append ..)⟩
  rcases lt_or_ge u.length c.length with hlong | hsh
  · obtain ⟨v, rfl⟩ := prefix_of_prefix_length_le (prefix_append u t) h (le_of_lt hlong)
    have hv : v <+: t := (prefix_append_right_inj u).mp h
    obtain ⟨b, rest, hshape, -, htail⟩ := whiteSpace_shape hc
    obtain ⟨x, u', rfl⟩ := exists_cons_of_ne_nil hu
    obtain ⟨y, v', rfl⟩ : ∃ y v', v = y :: v' := by
      refine exists_cons_of_ne_nil ?_
      rintro rfl
      rw [append_nil] at hlong
      exact absurd hlong (lt_irrefl _)
    obtain ⟨t', rfl⟩ := hv
    have hy : Continues y := by
      refine htail y ?_
      rw [cons_append, cons.injEq] at hshape
      rw [← hshape.2]
      exact mem_append_right _ (mem_cons_self ..)
    exact absurd hy (ht y rfl)
  · exact prefix_of_prefix_length_le h (prefix_append u t) hsh

theorem frontWidth_append (hu : u ≠ []) (ht : ∀ b, t.head? = some b → ¬ Continues b) :
    frontWidth whiteSpace (u ++ t) = frontWidth whiteSpace u := by
  have hfind : (whiteSpace.find? fun c => c.isPrefixOf (u ++ t)) =
      whiteSpace.find? fun c => c.isPrefixOf u := by
    refine find?_congr fun c hc => ?_
    rw [Bool.eq_iff_iff, isPrefixOf_iff_prefix, isPrefixOf_iff_prefix,
      whiteSpace_append hc hu ht]
  rw [frontWidth, frontWidth, hfind]

theorem frontWidth_le (table : List (List UInt8)) (s : List UInt8) :
    frontWidth table s ≤ s.length := by
  rw [frontWidth]
  split
  · exact zero_le _
  · next c hc =>
    have hfound := find?_some hc
    have hpre : c <+: s := isPrefixOf_iff_prefix.mp hfound
    exact hpre.length_le

theorem frontWidth_whiteSpace (hc : c ∈ whiteSpace) (t : List UInt8) :
    frontWidth whiteSpace (c ++ t) = c.length := by
  have hall : ∀ c ∈ whiteSpace, ∀ c' ∈ whiteSpace, c.length ≤ c'.length → c <+: c' → c = c' := by
    decide
  rw [frontWidth]
  split
  · next hnone =>
    refine absurd ?_ (find?_eq_none.mp hnone c hc)
    exact isPrefixOf_iff_prefix.mpr (prefix_append c t)
  · next c' hfnd =>
    have hmem := mem_of_find?_eq_some hfnd
    have hpref := find?_some hfnd
    have hpre : c' <+: c ++ t := isPrefixOf_iff_prefix.mp hpref
    rcases le_total c.length c'.length with hle | hle
    · have hcc := prefix_of_prefix_length_le (prefix_append c t) hpre hle
      rw [hall c hc c' hmem hle hcc]
    · have hcc := prefix_of_prefix_length_le hpre (prefix_append c t) hle
      rw [hall c' hmem c hc hle hcc]

theorem frontWidth_eq_zero (h : ∀ c ∈ table, ¬ c <+: s) : frontWidth table s = 0 := by
  have hnone : (table.find? fun c => c.isPrefixOf s) = none := by
    rw [find?_eq_none]
    intro c hc
    exact mt isPrefixOf_iff_prefix.mp (h c hc)
  rw [frontWidth, hnone]

/-! ## Fields -/

/-- The bytes of a word join the open field. -/
theorem fieldsLoop_solid (hw : Solid w)
    (ht : ∀ b, t.head? = some b → ¬ Continues b) (pos : Nat) (field : List UInt8) :
    fieldsLoop pos 0 field (w ++ t) = fieldsLoop (pos + w.length) 0 (field ++ w) t := by
  induction w generalizing pos field with
  | nil => rw [nil_append, append_nil, length_nil, add_zero]
  | cons b w ih =>
    have hfrt : frontWidth whiteSpace (b :: (w ++ t)) = 0 := by
      rw [← cons_append, frontWidth_append (cons_ne_nil b w) ht]
      exact hw _ (suffix_refl _) (cons_ne_nil b w)
    rw [cons_append, fieldsLoop, hfrt]
    simp only []
    rw [ih fun u hu => hw u (hu.trans (suffix_cons b w)), append_assoc, length_cons]
    congr 1
    omega

/-- Bytes of a space that is being passed. -/
theorem fieldsLoop_pass (pos : Nat) (field c t : List UInt8) :
    fieldsLoop pos c.length field (c ++ t) = fieldsLoop (pos + c.length) 0 field t := by
  induction c generalizing pos with
  | nil => rfl
  | cons b c ih =>
    rw [cons_append, length_cons, fieldsLoop, ih]
    congr 1
    omega

/-- White space closes the open field. -/
theorem fieldsLoop_space (hc : c ∈ whiteSpace) (pos : Nat) (field t : List UInt8) :
    fieldsLoop pos 0 field (c ++ t) =
      closeField pos field ++ fieldsLoop (pos + c.length) 0 [] t := by
  obtain ⟨b, c, rfl, -⟩ := whiteSpace_shape hc
  have hfrt := frontWidth_whiteSpace hc t
  rw [cons_append] at hfrt ⊢
  rw [fieldsLoop, hfrt, length_cons]
  simp only []
  rw [fieldsLoop_pass]
  congr 2
  omega

/-- The fields without their places. -/
def fieldWords (s : List UInt8) : List (List UInt8) := (bytesFields s).map Prod.snd

theorem map_closeField (pos pos' : Nat) (field : List UInt8) :
    (closeField pos field).map Prod.snd = (closeField pos' field).map Prod.snd := by
  rw [closeField, closeField]
  split <;> rfl

theorem map_fieldsLoop (pos pos' k : Nat) (field s : List UInt8) :
    (fieldsLoop pos k field s).map Prod.snd = (fieldsLoop pos' k field s).map Prod.snd := by
  fun_induction fieldsLoop pos k field s generalizing pos' with
  | case1 pos => simp [fieldsLoop, map_closeField pos pos']
  | case2 _ _ _ _ _ ih => exact ih _
  | case3 pos field b s h ih =>
    rw [fieldsLoop, h]
    exact ih _
  | case4 pos field b s k h ih =>
    rw [fieldsLoop, h, map_append, map_append, map_closeField pos pos', ih (pos' + 1)]

theorem closeField_place (hpos : pos ≤ whole.length) (hfield : field <:+ whole.take pos) :
    ∀ f ∈ closeField pos field, (whole.drop f.1).take f.2.length = f.2 := by
  intro f hf
  rw [closeField] at hf
  split at hf
  · cases hf
  obtain rfl := mem_singleton.mp hf
  obtain ⟨u, hu⟩ := hfield
  have hlen : (u ++ field).length = pos := by rw [hu, length_take, min_eq_left hpos]
  have hwh : whole = u ++ (field ++ whole.drop pos) := by
    rw [← append_assoc, hu, take_append_drop]
  have hplace : pos - field.length = u.length := by
    rw [length_append] at hlen
    omega
  simp only [hplace]
  rw [hwh, drop_left, take_left]

/-- One byte on. -/
theorem drop_cons (hs : whole.drop pos = b :: s) :
    pos < whole.length ∧ whole.drop (pos + 1) = s ∧
      whole.take (pos + 1) = whole.take pos ++ [b] := by
  have hlt : pos < whole.length := by
    have hlen := congrArg length hs
    rw [length_drop, length_cons] at hlen
    omega
  refine ⟨hlt, ?_, ?_⟩
  · rw [← drop_drop, hs]
    rfl
  · have hhead := getElem_cons_drop hlt
    rw [hs] at hhead
    rw [take_succ_eq_append_getElem hlt, (cons.inj hhead).1]

/-- A field lies where its place says. -/
theorem fieldsLoop_place (whole : List UInt8) (pos k : Nat) (field s : List UInt8)
    (hs : whole.drop pos = s) (hpos : pos ≤ whole.length) (hfield : field <:+ whole.take pos)
    (hk : k ≠ 0 → field = []) :
    ∀ f ∈ fieldsLoop pos k field s, (whole.drop f.1).take f.2.length = f.2 := by
  fun_induction fieldsLoop pos k field s with
  | case1 pos k field => exact closeField_place hpos hfield
  | case2 pos k field b s ih =>
    obtain ⟨hlt, hnext, -⟩ := drop_cons hs
    obtain rfl := hk (succ_ne_zero k)
    exact ih hnext hlt nil_suffix fun _ => rfl
  | case3 pos field b s _ ih =>
    obtain ⟨hlt, hnext, htake⟩ := drop_cons hs
    refine ih hnext hlt ?_ fun h => absurd rfl h
    obtain ⟨u, hu⟩ := hfield
    exact ⟨u, by rw [htake, ← hu, append_assoc]⟩
  | case4 pos field b s k _ ih =>
    obtain ⟨hlt, hnext, -⟩ := drop_cons hs
    intro f hf
    rcases mem_append.mp hf with hf | hf
    · exact closeField_place hpos hfield f hf
    · exact ih hnext hlt nil_suffix (fun _ => rfl) f hf

/-- The fields behind a position lie behind it. -/
theorem le_of_mem_fieldsLoop {k : Nat} {f : Nat × List UInt8}
    (hf : f ∈ fieldsLoop pos k field s) : pos - field.length ≤ f.1 := by
  have hclose : ∀ {pos : Nat} {field : List UInt8}, f ∈ closeField pos field →
      pos - field.length ≤ f.1 := by
    intro pos field hf
    rw [closeField] at hf
    split at hf
    · cases hf
    · obtain rfl := mem_singleton.mp hf
      exact le_rfl
  fun_induction fieldsLoop pos k field s with
  | case1 => exact hclose hf
  | case2 pos k field b s ih =>
    have hnext := ih hf
    omega
  | case3 pos field b s _ ih =>
    have hnext := ih hf
    rw [length_append, length_singleton] at hnext
    omega
  | case4 pos field b s k _ ih =>
    rcases mem_append.mp hf with hf | hf
    · exact hclose hf
    have hnext := ih hf
    rw [length_nil] at hnext
    omega

/-- No field begins before the end of another one in front of it. -/
theorem fieldsLoop_pairwise (pos k : Nat) (field s : List UInt8) (hfield : field.length ≤ pos) :
    (fieldsLoop pos k field s).Pairwise fun f g => f.1 + f.2.length ≤ g.1 := by
  fun_induction fieldsLoop pos k field s with
  | case1 pos k field =>
    rw [closeField]
    split
    · exact List.Pairwise.nil
    · exact pairwise_singleton ..
  | case2 pos k field b s ih => exact ih (le_succ_of_le hfield)
  | case3 pos field b s _ ih =>
    refine ih ?_
    rw [length_append, length_singleton]
    omega
  | case4 pos field b s k _ ih =>
    rw [closeField]
    split
    · exact ih (zero_le _)
    refine pairwise_cons.mpr ⟨?_, ih (zero_le _)⟩
    intro g hg
    have hle := le_of_mem_fieldsLoop hg
    rw [length_nil] at hle
    simp only []
    omega

/-! ## Words between blanks -/

theorem mem_whiteSpace_of_blank (hb : IsBlank b) : [b] ∈ whiteSpace := by
  rcases hb with rfl | rfl <;> decide

/-- A word with a blank, or nothing, behind it. -/
theorem fieldWords_word (hw : w ≠ []) (hsolid : Solid w)
    (htext : ∀ b, text.head? = some b → IsBlank b) :
    fieldWords (w ++ text) = w :: fieldWords text := by
  have hclose : closeField (0 + w.length) ([] ++ w) = [(0, w)] := by
    rw [nil_append, closeField, if_neg hw, zero_add, Nat.sub_self]
  rw [fieldWords, bytesFields,
    fieldsLoop_solid hsolid fun b hb => by rcases htext b hb with rfl | rfl <;> decide]
  cases text with
  | nil =>
    rw [fieldsLoop, hclose]
    rfl
  | cons b text =>
    have hb := mem_whiteSpace_of_blank (htext b rfl)
    have hfrt := fieldsLoop_space hb (0 + w.length) ([] ++ w) text
    have hback := fieldsLoop_space hb 0 [] text
    rw [singleton_append] at hfrt hback
    rw [hfrt, hclose, fieldWords, bytesFields, hback, closeField, if_pos rfl]
    simp only [map_cons, nil_append, cons_append]
    rw [map_fieldsLoop]

theorem fieldWords_space (hc : c ∈ whiteSpace) (text : List UInt8) :
    fieldWords (c ++ text) = fieldWords text := by
  rw [fieldWords, bytesFields, fieldsLoop_space hc, closeField, if_pos rfl, nil_append,
    map_fieldsLoop _ 0]
  rfl

theorem fieldWords_blanks {sep : List UInt8} (hsep : ∀ b ∈ sep, IsBlank b) (text : List UInt8) :
    fieldWords (sep ++ text) = fieldWords text := by
  induction sep with
  | nil => rfl
  | cons b sep ih =>
    have hb := mem_whiteSpace_of_blank (hsep b (mem_cons_self ..))
    have hspace := fieldWords_space hb (sep ++ text)
    rw [singleton_append] at hspace
    rw [cons_append, hspace]
    exact ih fun b' hb' => hsep b' (mem_cons_of_mem b hb')

theorem writes_head_blank (h : Writes text words) (hb : text.head? = some b) : IsBlank b := by
  cases h with
  | blanks hall => exact hall b (mem_of_head? hb)
  | word hne hsep _ _ _ =>
    obtain ⟨c, sep, rfl⟩ := exists_cons_of_ne_nil hne
    obtain rfl : c = b := Option.some.inj hb
    exact hsep c (mem_cons_self ..)

theorem fieldWords_writes (h : Writes text words) : fieldWords text = words := by
  induction h with
  | blanks hall =>
    have hnone := fieldWords_blanks hall []
    rw [append_nil] at hnone
    exact hnone
  | word _ hsep hw hsolid hrest ih =>
    rw [fieldWords_blanks hsep, fieldWords_word hw hsolid fun _ => writes_head_blank hrest, ih]

/-! ### Bytes that are not white space -/

theorem solid_notMem (h : Solid w) (hb : [b] ∈ whiteSpace) : b ∉ w := by
  intro hmem
  obtain ⟨u, v, rfl⟩ := append_of_mem hmem
  have hzero := h (b :: v) (suffix_append u (b :: v)) (cons_ne_nil b v)
  have hone := frontWidth_whiteSpace hb v
  rw [singleton_append, hzero] at hone
  cases hone

theorem writes_notMem (h : Writes text words) (hb : [b] ∈ whiteSpace) (hblank : ¬ IsBlank b) :
    b ∉ text := by
  induction h with
  | blanks hall => exact fun hmem => hblank (hall b hmem)
  | word _ hsep _ hsolid _ ih =>
    rw [mem_append, mem_append]
    rintro (hmem | hmem | hmem)
    · exact hblank (hsep b hmem)
    · exact solid_notMem hsolid hb hmem
    · exact ih hmem

/-- The printing characters of ASCII. -/
def Graphic (b : UInt8) : Prop := 33 ≤ b ∧ b < 127

instance (b : UInt8) : Decidable (Graphic b) := inferInstanceAs (Decidable (_ ∧ _))

theorem frontWidth_graphic (hb : Graphic b) (t : List UInt8) : frontWidth whiteSpace (b :: t) = 0 ∧
      frontWidth (whiteSpace.map List.reverse) (b :: t) = 0 := by
  have hfst : ∀ c ∈ whiteSpace ++ whiteSpace.map reverse,
      (c.take 1).all (fun x => ¬ Graphic x) = true := by decide
  have hne : ∀ c ∈ whiteSpace ++ whiteSpace.map reverse, c ≠ [] := by decide
  have hno : ∀ c ∈ whiteSpace ++ whiteSpace.map reverse, ¬ c <+: b :: t := by
    intro c hc hpre
    obtain ⟨x, c', rfl⟩ := exists_cons_of_ne_nil (hne c hc)
    obtain ⟨rfl, -⟩ := cons_prefix_cons.mp hpre
    exact forall_mem_of_all (hfst _ hc) x (mem_singleton_self x) hb
  exact ⟨frontWidth_eq_zero fun c hc => hno c (mem_append_left _ hc),
    frontWidth_eq_zero fun c hc => hno c (mem_append_right _ hc)⟩

theorem solid_of_graphic (h : ∀ b ∈ w, Graphic b) : Solid w := by
  intro s hs hne
  obtain ⟨b, t, rfl⟩ := exists_cons_of_ne_nil hne
  exact (frontWidth_graphic (h b (hs.subset (mem_cons_self ..))) t).1

/-! ### Letters of either case -/

theorem graphic_of_toLower (h : Graphic (toLowerASCII b)) : Graphic b := by
  rw [toLowerASCII] at h
  split at h
  · next hlet => exact ⟨UInt8.le_trans (by decide) hlet.1, UInt8.lt_of_le_of_lt hlet.2 (by decide)⟩
  · exact h

section
variable {a b : List UInt8} (h : equalFoldASCII a b = true)
include h

theorem equalFold_length : a.length = b.length := by
  have hmap := congrArg length (of_decide_eq_true h)
  rw [length_map, length_map] at hmap
  exact hmap

theorem equalFold_drop (n : Nat) : equalFoldASCII (a.drop n) (b.drop n) = true := by
  have hmap := congrArg (drop n) (of_decide_eq_true h)
  rw [← map_drop, ← map_drop] at hmap
  exact decide_eq_true hmap

theorem equalFold_congr (c : List UInt8) : equalFoldASCII a c = equalFoldASCII b c := by
  rw [equalFoldASCII, equalFoldASCII, of_decide_eq_true h]

theorem graphic_of_equalFold
    (hb : ∀ x ∈ b, Graphic (toLowerASCII x)) : ∀ x ∈ a, Graphic x := by
  intro x hx
  have hmem : toLowerASCII x ∈ b.map toLowerASCII := by
    rw [← of_decide_eq_true h]
    exact mem_map_of_mem hx
  obtain ⟨y, hy, hlower⟩ := mem_map.mp hmem
  refine graphic_of_toLower ?_
  rw [← hlower]
  exact hb y hy

end

/-! ### Numbers -/

theorem atoi_number (h : IsNumber w n) : atoi w = some (n : Int) := by
  obtain ⟨hne, hdigs, hvalue, hlt⟩ := h
  obtain ⟨b, t, rfl⟩ := exists_cons_of_ne_nil hne
  have hb := hdigs b (mem_cons_self ..)
  have hsign : ¬ ((b :: t).head? = some 45 ∨ (b :: t).head? = some 43) := by
    rintro (hsome | hsome)
    · obtain rfl : b = 45 := Option.some.inj hsome
      exact absurd hb (by decide)
    · obtain rfl : b = 43 := Option.some.inj hsome
      exact absurd hb (by decide)
  have hminus : ¬ (b :: t).head? = some 45 := fun hsome => hsign (.inl hsome)
  rw [atoi]
  simp only [if_neg hsign]
  rw [if_neg, hvalue, if_neg, if_pos hlt]
  · exact hminus
  rintro (hnil | hoth)
  · cases hnil
  · exact hoth hdigs

theorem isAlnum_number (h : IsNumber w n) : isASCIIAlnumBytes w = true := by
  obtain ⟨hne, hdigs, -, -⟩ := h
  rw [isASCIIAlnumBytes, Bool.and_eq_true, all_eq_true]
  refine ⟨?_, ?_⟩
  · rw [Bool.not_eq_true', isEmpty_eq_false_iff]
    exact hne
  · intro c hc
    have hc' := hdigs c hc
    rw [isASCIIAlnumByte, decide_eq_true_eq]
    exact .inr (.inr hc')

/-! ## Trimming -/

theorem trimFront_eq_self (h : frontWidth table s = 0) : trimFront table 0 s = s := by
  cases s with
  | nil => rfl
  | cons b s => rw [trimFront, h]

/-- What is trimmed off is a sequence of entries of the table. -/
theorem trimFront_append (table : List (List UInt8)) (k : Nat) (s : List UInt8)
    (hk : k ≤ s.length) : ∃ cs : List (List UInt8), (∀ c ∈ cs, c ∈ table) ∧
      s.drop k = cs.flatten ++ trimFront table k s := by
  fun_induction trimFront table k s with
  | case1 => exact ⟨[], fun c hc => (nomatch hc), drop_nil⟩
  | case2 k b s ih => exact ih (le_of_succ_le_succ hk)
  | case3 => exact ⟨[], fun c hc => (nomatch hc), rfl⟩
  | case4 b s k hwidth ih =>
    have hle := frontWidth_le table (b :: s)
    rw [hwidth] at hle
    obtain ⟨cs, hcs, hdrop⟩ := ih (le_of_succ_le_succ hle)
    rw [frontWidth] at hwidth
    split at hwidth
    · cases hwidth
    · next c hc =>
      have hpref := find?_some hc
      obtain ⟨t, ht⟩ := isPrefixOf_iff_prefix.mp hpref
      refine ⟨c :: cs, forall_mem_cons.mpr ⟨mem_of_find?_eq_some hc, hcs⟩, ?_⟩
      have hrest : s.drop k = t := by
        have hall : (b :: s).drop c.length = t := by rw [← ht, drop_left]
        rw [hwidth] at hall
        exact hall
      rw [drop_zero, flatten_cons, append_assoc, ← hdrop, hrest, ht]

theorem fieldsLoop_trimFront (k pos : Nat) (s : List UInt8) :
    (fieldsLoop pos k [] s).map Prod.snd = fieldWords (trimFront whiteSpace k s) := by
  fun_induction trimFront whiteSpace k s generalizing pos with
  | case1 => rfl
  | case2 k b s ih => exact ih _
  | case3 b s hk => exact map_fieldsLoop ..
  | case4 b s k hk ih =>
    rw [fieldsLoop, hk]
    exact ih _

theorem fieldsLoop_concat (hc : c ∈ whiteSpace) (pos k : Nat) (field s : List UInt8)
    (hk : k ≤ s.length) : fieldsLoop pos k field (s ++ c) = fieldsLoop pos k field s := by
  have hhead : ∀ x, c.head? = some x → ¬ Continues x := by
    intro x hx
    obtain ⟨y, t, rfl, hy, -⟩ := whiteSpace_shape hc
    obtain rfl : y = x := Option.some.inj hx
    exact hy
  fun_induction fieldsLoop pos k field s with
  | case1 pos k field =>
    obtain rfl := le_zero.mp hk
    have hspace := fieldsLoop_space hc pos field []
    rw [append_nil] at hspace
    rw [nil_append, hspace]
    exact append_nil _
  | case2 pos k field b s ih => exact ih (le_of_succ_le_succ hk)
  | case3 pos field b s h ih =>
    rw [cons_append, fieldsLoop, ← cons_append, frontWidth_append (cons_ne_nil b s) hhead, h]
    exact ih (zero_le _)
  | case4 pos field b s k h ih =>
    have hle := frontWidth_le whiteSpace (b :: s)
    rw [length_cons] at hle
    rw [cons_append, fieldsLoop, ← cons_append, frontWidth_append (cons_ne_nil b s) hhead, h]
    simp only []
    rw [ih (by omega)]

theorem fieldWords_append_spaces (s : List UInt8) {cs : List (List UInt8)}
    (hcs : ∀ c ∈ cs, c ∈ whiteSpace) : fieldWords (s ++ cs.flatten) = fieldWords s := by
  induction cs generalizing s with
  | nil => rw [flatten_nil, append_nil]
  | cons c cs ih =>
    rw [flatten_cons, ← append_assoc, ih _ fun c' hc' => hcs c' (mem_cons_of_mem c hc'),
      fieldWords, bytesFields, fieldsLoop_concat (hcs c (mem_cons_self ..)) _ _ _ _ (zero_le _)]
    rfl

/-- White space around a line does not change its fields. -/
theorem fieldWords_trimSpace (s : List UInt8) : fieldWords (trimSpace s) = fieldWords s := by
  obtain ⟨cs, hcs, hdrop⟩ := trimFront_append (whiteSpace.map reverse) 0
    (trimFront whiteSpace 0 s).reverse (zero_le _)
  have hfrt : fieldWords s = fieldWords (trimFront whiteSpace 0 s) := fieldsLoop_trimFront 0 0 s
  have hspl : trimFront whiteSpace 0 s = trimSpace s ++ (cs.reverse.map reverse).flatten := by
    have hrev := congrArg reverse hdrop
    rw [drop_zero, reverse_reverse, reverse_append, reverse_flatten] at hrev
    rw [map_reverse]
    exact hrev
  rw [hfrt, hspl, fieldWords_append_spaces]
  intro c hc
  obtain ⟨c', hc', rfl⟩ := mem_map.mp hc
  obtain ⟨c'', hmem, rfl⟩ := mem_map.mp (hcs c' (mem_reverse.mp hc'))
  rw [reverse_reverse]
  exact hmem

theorem frontWidth_blank (hb : IsBlank b) (t : List UInt8) : frontWidth whiteSpace (b :: t) = 1 ∧
      frontWidth (whiteSpace.map List.reverse) (b :: t) = 1 := by
  rcases hb with rfl | rfl
  · exact ⟨rfl, rfl⟩
  · exact ⟨rfl, rfl⟩

theorem trimFront_blanks {front : List UInt8} (h : ∀ b ∈ front, IsBlank b) (t : List UInt8) :
    trimFront whiteSpace 0 (front ++ t) = trimFront whiteSpace 0 t ∧
      trimFront (whiteSpace.map List.reverse) 0 (front ++ t) =
        trimFront (whiteSpace.map List.reverse) 0 t := by
  induction front with
  | nil => exact ⟨rfl, rfl⟩
  | cons b front ih =>
    obtain ⟨hone, hrev⟩ := frontWidth_blank (h b (mem_cons_self ..)) (front ++ t)
    obtain ⟨hleft, hright⟩ := ih fun b' hb' => h b' (mem_cons_of_mem b hb')
    rw [cons_append, trimFront, trimFront, hone, hrev]
    exact ⟨hleft, hright⟩

/-- Blanks behind a text that does not begin or end with white space. -/
theorem trimSpace_append_blanks {back : List UInt8}
    (hfrt : frontWidth whiteSpace (text ++ back) = 0) (hend : ∀ c ∈ whiteSpace, ¬ c <:+ text)
    (hback : ∀ b ∈ back, IsBlank b) : trimSpace (text ++ back) = text := by
  have hrev : ∀ c ∈ whiteSpace.map reverse, ¬ c <+: text.reverse := by
    intro c hc hpre
    obtain ⟨c', hc', rfl⟩ := mem_map.mp hc
    refine hend c' hc' ?_
    exact reverse_prefix.mp hpre
  rw [trimSpace, trimFront_eq_self hfrt, reverse_append, (trimFront_blanks (fun b hb => hback b
    (mem_reverse.mp hb)) _).2, trimFront_eq_self (frontWidth_eq_zero hrev), reverse_reverse]

/-- `bytes.TrimSpace` is a slice of its argument. -/
theorem trimSpace_eq_slice (s : List UInt8) :
    trimSpace s =
      (s.drop (s.length - (trimFront whiteSpace 0 s).length)).take (trimSpace s).length := by
  obtain ⟨cs, -, hfrt⟩ := trimFront_append whiteSpace 0 s (zero_le _)
  obtain ⟨ds, -, hback⟩ := trimFront_append (whiteSpace.map reverse) 0
    (trimFront whiteSpace 0 s).reverse (zero_le _)
  rw [drop_zero] at hfrt hback
  have hpre : trimSpace s <+: trimFront whiteSpace 0 s := by
    refine ⟨ds.flatten.reverse, ?_⟩
    have hrev := congrArg reverse hback
    rw [reverse_reverse, reverse_append] at hrev
    exact hrev.symm
  have hdrop : s.drop (s.length - (trimFront whiteSpace 0 s).length) =
      trimFront whiteSpace 0 s := by
    have hlen := congrArg length hfrt
    rw [length_append] at hlen
    have hcnt : s.length - (trimFront whiteSpace 0 s).length = cs.flatten.length := by omega
    rw [hcnt]
    conv => lhs; rw [hfrt]
    exact drop_left
  rw [hdrop]
  exact (prefix_iff_eq_take.mp hpre)

end Obi.Refine
