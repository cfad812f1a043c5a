import Obi.Ref.ProcessWatcher

/-!
# Process names shift the fields behind them

The name stands in parentheses and may have parentheses of its own. The splitter goes in at
every opening one and out at the first closing one, and it drops empty words: a name that it
does not take for just one word moves all fields behind it. Which names these are is said
here of their characters: the splitter is inside exactly behind an opening parenthesis that
no other one follows.
-/

namespace Obi.Refine.ProcStat
open Ref.ProcStat List

/-- The line, with the fields behind the name. -/
def statLine (pid comm : List Char) (fs : List (List Char)) : List Char :=
  pid ++ ' ' :: (('(' :: comm ++ [')']) ++ fs.flatMap (' ' :: ·))

/-- A field other than the name. -/
def Plain (w : List Char) : Prop := w ≠ [] ∧ ∀ c ∈ w, c ≠ ' ' ∧ c ≠ '(' ∧ c ≠ ')'

def after (inParens : Bool) (u : List Char) : Bool :=
  u.foldl (fun st c => (separates st c).2) inParens

variable {st : Bool} {word u w pid comm : List Char} {fs : List (List Char)}

theorem fieldsFunc_separator {c : Char} (rest : List Char)
    (hc : separates (after st u) c = (true, false)) :
    fieldsFunc st word (u ++ c :: rest) = fieldsFunc st word u ++ fieldsFunc false [] rest := by
  induction u generalizing st word with
  | nil =>
    rw [after, foldl_nil] at hc
    simp only [nil_append, fieldsFunc, hc]
  | cons d u ih =>
    rw [after, foldl_cons] at hc
    simp only [cons_append, fieldsFunc]
    rcases hd : separates st d with ⟨_ | _, st'⟩ <;> rw [hd] at hc <;> simp [ih hc]

theorem fieldsFunc_plain (word : List Char) (hw : ∀ c ∈ w, c ≠ ' ' ∧ c ≠ '(' ∧ c ≠ ')') :
    fieldsFunc false word w = fieldsFunc false (word ++ w) [] ∧ after false w = false := by
  induction w generalizing word with
  | nil => simp [after]
  | cons c w ih =>
    obtain ⟨⟨hsp, hop, -⟩, hw⟩ := forall_mem_cons.mp hw
    have hc : separates false c = (false, false) := by simp [separates, hsp, hop]
    have hrest := ih (word ++ [c]) hw
    rw [append_assoc, singleton_append] at hrest
    simpa only [fieldsFunc, hc, after, foldl_cons] using hrest

/-- Fields behind a text that is left outside of parentheses. -/
theorem words_fields (hfs : ∀ w ∈ fs, Plain w) (hu : after false u = false) :
    fieldsFunc false [] (u ++ fs.flatMap (' ' :: ·)) = fieldsFunc false [] u ++ fs := by
  induction fs generalizing u with
  | nil => simp
  | cons w fs ih =>
    obtain ⟨hw, hfs⟩ := forall_mem_cons.mp hfs
    obtain ⟨hword, haft⟩ := fieldsFunc_plain [] hw.2
    rw [flatMap_cons, cons_append, fieldsFunc_separator _ (by rw [hu]; rfl), ih hfs haft, hword]
    simp [fieldsFunc, hw.1]

theorem words_line (hpid : Plain pid) (hfs : ∀ w ∈ fs, Plain w) :
    fieldsFunc false [] (statLine pid comm fs) =
      pid :: (fieldsFunc false [] ('(' :: comm ++ [')']) ++ fs) := by
  have hend : after false ('(' :: comm ++ [')']) = false := by
    rw [after, foldl_append]
    cases foldl _ _ ('(' :: comm) <;> rfl
  obtain ⟨hword, haft⟩ := fieldsFunc_plain [] hpid.2
  rw [statLine, fieldsFunc_separator _ (by rw [haft]; rfl), words_fields hfs hend, hword]
  simp [fieldsFunc, hpid.1]

/-! ## The words of a name -/

/-- Whether the last parenthesis of a text is an opening one. -/
def inside (before : List Char) : Bool :=
  before.reverse.find? (fun c => c = '(' ∨ c = ')') = some '('

/-- Whether a character separates behind a text: an opening parenthesis does; inside, a closing
one does, and outside a space. -/
def separator (before : List Char) (c : Char) : Bool :=
  c = '(' ∨ c = if inside before then ')' else ' '

/-- How many words start in the characters behind a text: at each that does not separate and
comes right behind one that does. -/
def wordStarts (before : List Char) (behindSeparator : Bool) : List Char → Nat
  | [] => 0
  | c :: s => (if behindSeparator ∧ ¬ separator before c then 1 else 0) +
      wordStarts (before ++ [c]) (separator before c) s

theorem separates_eq (before : List Char) (c : Char) :
    separates (inside before) c = (separator before c, inside (before ++ [c])) := by
  have hnext : inside (before ++ [c]) = if c = '(' then true else if c = ')' then false
      else inside before := by
    simp only [inside, reverse_append, reverse_singleton, singleton_append, find?_cons]
    by_cases hop : c = '('
    · simp [hop]
    by_cases hcl : c = ')'
    · simp [hcl]
    · simp [hop, hcl]
  rw [hnext, separates, separator]
  cases inside before <;> by_cases hop : c = '(' <;> by_cases hcl : c = ')' <;> simp [hop, hcl]

/-- The splitter finds as many words as start, and one more if it is in a word. -/
theorem length_fieldsFunc (before word s : List Char) :
    (fieldsFunc (inside before) word s).length =
      (if word = [] then 0 else 1) + wordStarts before (word = []) s := by
  induction s generalizing before word with
  | nil => by_cases hword : word = [] <;> simp [fieldsFunc, wordStarts, hword]
  | cons c s ih =>
    rw [fieldsFunc, wordStarts, separates_eq]
    cases hsep : separator before c with
    | true =>
      rw [length_append, ih]
      by_cases hword : word = [] <;> simp [hword]
    | false =>
      rw [ih]
      by_cases hword : word = [] <;> simp [hword]

/-- Without parentheses the name is the word. -/
theorem fieldsFunc_name (word : List Char) (h : ∀ c ∈ comm, c ≠ '(' ∧ c ≠ ')') :
    fieldsFunc true word (comm ++ [')']) = if word ++ comm = [] then [] else [word ++ comm] := by
  induction comm generalizing word with
  | nil => simp [fieldsFunc, separates]
  | cons c comm ih =>
    obtain ⟨hc, h⟩ := forall_mem_cons.mp h
    have hsep : separates true c = (false, true) := by simp [separates, hc]
    simp [fieldsFunc, hsep, ih _ h]

/-- The fields behind the name are where they belong exactly if one word starts in the name and
its parentheses. Of the names without parentheses only the empty one is not such. -/
theorem fields_found_iff (comm : List Char) :
    ((∀ pid fs k, Plain pid → (∀ w ∈ fs, Plain w) → 3 ≤ k →
      parseProcStatField (statLine pid comm fs) k = fs.getD (k - 3) []) ↔
    wordStarts [] true ('(' :: comm ++ [')']) = 1) ∧
    ((∀ c ∈ comm, c ≠ '(' ∧ c ≠ ')') →
      (wordStarts [] true ('(' :: comm ++ [')']) = 1 ↔ comm ≠ [])) := by
  have hwords : (fieldsFunc false [] ('(' :: comm ++ [')'])).length = _ :=
    length_fieldsFunc [] [] _
  simp only [if_true, Nat.zero_add, decide_true] at hwords
  rw [← hwords]
  refine ⟨⟨fun h => ?_, fun h pid fs k hpid hfs hk => ?_⟩, fun h => ?_⟩
  · have hS : Plain ['S'] := by simp [Plain]
    have hfs : ∀ w ∈ [['S']], Plain w := by simpa using hS
    have hfield (k : Nat) := h _ _ (k + 3) hS hfs (by omega)
    simp only [parseProcStatField, words_line hS hfs] at hfield
    generalize fieldsFunc false [] ('(' :: comm ++ [')']) = ws at *
    match ws with
    | [] => simpa using hfield 0
    | [_] => rfl
    | _ :: _ :: ws => simpa using hfield (ws.length + 1)
  · obtain ⟨name, hname⟩ := length_eq_one_iff.mp h
    obtain ⟨k, rfl⟩ : ∃ j, k = j + 3 := ⟨k - 3, by omega⟩
    rw [parseProcStatField, words_line hpid hfs, hname]
    simp
  · have hname : fieldsFunc false [] ('(' :: comm ++ [')']) = _ := fieldsFunc_name [] h
    rw [hname, nil_append]
    by_cases hnil : comm = [] <;> simp [hnil]

/-- The process `(sd-pam)` of systemd. -/
theorem sd_pam_shifts :
    parseProcStatField (statLine ['9'] "(sd-pam)".toList [['S'], ['1']]) 3 = [')'] := by
  decide

end Obi.Refine.ProcStat
