import Mathlib.Data.List.Basic
import Mathlib.Data.List.Induction
import Mathlib.Algebra.Order.BigOperators.Group.List
import Mathlib.Tactic.Ring

/-!
# Lines and tokens

A text is read in chunks of at most `n` characters that end with the first
separator (`chunk`), and a chunk is split into its tokens (`tokens`), the
nonempty parts between the delimiters.  Words with single delimiters between
them are their own tokens (`tokens_intercalate`).  In the other direction the
tokens are never longer than the text (`width_tokens_le`), and a token that is
read as a number has at least as many digits as the number
(`length_toDigits_ofDigitChars_le`).
-/

variable {α : Type*}

/-! ## Lines -/

section Chunk

variable [DecidableEq α] {sep : α} {line : List α}

/-- The first `n` elements, or as many as end with the first separator, and the rest. -/
def chunk (sep : α) : ℕ → List α → List α × List α
  | 0, text => ([], text)
  | _ + 1, [] => ([], [])
  | n + 1, c :: text =>
      if c = sep then ([c], text) else (c :: (chunk sep n text).1, (chunk sep n text).2)

theorem chunk_length_le (sep : α) (n : ℕ) (text : List α) : (chunk sep n text).1.length ≤ n := by
  induction n generalizing text with
  | zero => exact Nat.le_refl 0
  | succ n ih =>
      cases text with
      | nil => exact Nat.zero_le _
      | cons c text =>
          rw [chunk]
          split
          · exact Nat.succ_le_succ (Nat.zero_le n)
          · exact Nat.succ_le_succ (ih text)

/-- Nothing is lost. -/
theorem chunk_append (sep : α) (n : ℕ) (text : List α) :
    (chunk sep n text).1 ++ (chunk sep n text).2 = text := by
  induction n generalizing text with
  | zero => rfl
  | succ n ih =>
      cases text with
      | nil => rfl
      | cons c text =>
          rw [chunk]
          split
          · rfl
          · exact congrArg (c :: ·) (ih text)

/-- A line that fits is read with its separator. -/
theorem chunk_line (hline : sep ∉ line) {n : ℕ} (hfits : line.length + 1 ≤ n) (rest : List α) :
    chunk sep n (line ++ sep :: rest) = (line ++ [sep], rest) := by
  induction line generalizing n with
  | nil =>
      obtain ⟨m, rfl⟩ : ∃ m, n = m + 1 := ⟨n - 1, by simp only [List.length_nil] at hfits; omega⟩
      exact if_pos rfl
  | cons c line ih =>
      rw [List.mem_cons, not_or] at hline
      rw [List.length_cons] at hfits
      obtain ⟨m, rfl⟩ : ∃ m, n = m + 1 := ⟨n - 1, by omega⟩
      rw [List.cons_append, chunk, if_neg (Ne.symm hline.1), ih hline.2 (by omega)]
      rfl

/-- A line that does not fit is cut. -/
theorem chunk_cut (hline : sep ∉ line) (rest : List α) :
    chunk sep line.length (line ++ rest) = (line, rest) := by
  induction line with
  | nil => cases rest <;> rfl
  | cons c line ih =>
      rw [List.mem_cons, not_or] at hline
      rw [List.length_cons, List.cons_append, chunk, if_neg (Ne.symm hline.1), ih hline.2]

end Chunk

/-! ## Tokens -/

section Width

variable {delim : α} {words : List (List α)}

/-- The length of the words, each with one delimiter. -/
def width (words : List (List α)) : ℕ := (words.map fun word => word.length + 1).sum

@[simp] theorem width_nil : width ([] : List (List α)) = 0 := rfl

@[simp] theorem width_cons (word : List α) (words : List (List α)) :
    width (word :: words) = word.length + 1 + width words := rfl

theorem width_intercalate (delim : α) (hne : words ≠ []) :
    width words = ([delim].intercalate words).length + 1 := by
  induction words with
  | nil => exact absurd rfl hne
  | cons word words ih =>
      cases words with
      | nil => rw [width_cons, width_nil, List.intercalate_singleton]
      | cons next words =>
          rw [width_cons, ih (List.cons_ne_nil _ _), List.intercalate_cons_cons,
            List.length_append, List.length_append, List.length_singleton]
          omega

theorem mem_intercalate {c : α} (hc : c ∈ [delim].intercalate words) :
    c = delim ∨ ∃ word ∈ words, c ∈ word := by
  induction words with
  | nil => cases hc
  | cons word words ih =>
      cases words with
      | nil =>
          rw [List.intercalate_singleton] at hc
          exact .inr ⟨word, List.mem_cons_self, hc⟩
      | cons next words =>
          rw [List.intercalate_cons_cons, List.mem_append, List.mem_append,
            List.mem_singleton] at hc
          rcases hc with (hword | hdelim) | hrest
          · exact .inr ⟨word, List.mem_cons_self, hword⟩
          · exact .inl hdelim
          · exact (ih hrest).imp_right fun ⟨w, hw, hc⟩ => ⟨w, List.mem_cons_of_mem _ hw, hc⟩

/-- What follows the last word belongs to it. -/
theorem intercalate_concat_append (words : List (List α)) (last tail : List α) :
    [delim].intercalate (words ++ [last]) ++ tail =
      [delim].intercalate (words ++ [last ++ tail]) := by
  induction words with
  | nil => rw [List.nil_append, List.nil_append, List.intercalate_singleton,
      List.intercalate_singleton]
  | cons word words ih =>
      have hne : ∀ w : List α, words ++ [w] ≠ [] := fun w =>
        List.append_ne_nil_of_right_ne_nil _ (List.cons_ne_nil _ _)
      rw [List.cons_append, List.cons_append, List.intercalate_cons_of_ne_nil (hne _),
        List.intercalate_cons_of_ne_nil (hne _), ← ih, List.append_assoc, List.append_assoc]

/-- A word: not empty, and without the delimiter. -/
def IsWord (delim : α) (word : List α) : Prop := word ≠ [] ∧ delim ∉ word

end Width

section Tokens

variable [DecidableEq α] {delim : α} {words : List (List α)}

/-- The nonempty parts between the delimiters. -/
def tokens (delim : α) (text : List α) : List (List α) :=
  (text.splitOn delim).filter (· ≠ [])

theorem width_tokens_le (delim : α) (text : List α) :
    width (tokens delim text) ≤ text.length + 1 := by
  have hparts : width (text.splitOn delim) = text.length + 1 := by
    rw [width_intercalate delim (List.splitOn_ne_nil _ _), List.intercalate_splitOn]
  rw [← hparts]
  exact (List.filter_sublist.map _).sum_le_sum fun _ _ => Nat.zero_le _

theorem mem_of_mem_tokens {text word : List α} (hword : word ∈ tokens delim text) {c : α}
    (hc : c ∈ word) : c ∈ text := by
  have hmem : c ∈ [delim].intercalate (text.splitOn delim) := by
    have hpart := List.mem_of_mem_filter hword
    generalize text.splitOn delim = parts at hpart
    induction parts with
    | nil => cases hpart
    | cons part parts ih =>
        cases parts with
        | nil =>
            rw [List.mem_singleton] at hpart
            rw [List.intercalate_singleton, ← hpart]
            exact hc
        | cons next parts =>
            rw [List.intercalate_cons_cons, List.mem_append, List.mem_append]
            rcases List.mem_cons.mp hpart with rfl | hrest
            · exact .inl (.inl hc)
            · exact .inr (ih hrest)
  rwa [List.intercalate_splitOn] at hmem

@[simp] theorem tokens_nil (delim : α) : tokens delim [] = [] := rfl

/-- Words with single delimiters between them. -/
theorem tokens_intercalate (hwords : ∀ word ∈ words, IsWord delim word) :
    tokens delim ([delim].intercalate words) = words := by
  cases words with
  | nil => rfl
  | cons word words =>
      unfold tokens
      rw [List.splitOn_intercalate _ (fun w hw => (hwords w hw).2) (List.cons_ne_nil _ _),
        List.filter_eq_self]
      intro w hw
      exact decide_eq_true (hwords w hw).1

theorem tokens_append_delim (delim : α) (text rest : List α) :
    tokens delim (text ++ delim :: rest) = tokens delim text ++ tokens delim rest := by
  unfold tokens
  rw [List.splitOn_append_cons_self, List.filter_append]

end Tokens

/-! ## Lines and fields of a whole text -/

section Fields

/-- The lines of a text, each with the separator at its end; the last one may be without. -/
def endedLines [DecidableEq α] (sep : α) : List α → List (List α)
  | [] => []
  | c :: text =>
      if c = sep then [c] :: endedLines sep text
      else
        match endedLines sep text with
        | [] => [[c]]
        | line :: lines => (c :: line) :: lines

theorem endedLines_line [DecidableEq α] {sep : α} {line : List α} (hline : sep ∉ line)
    (rest : List α) :
    endedLines sep (line ++ sep :: rest) = (line ++ [sep]) :: endedLines sep rest := by
  induction line with
  | nil => exact if_pos rfl
  | cons c line ih =>
      rw [List.mem_cons, not_or] at hline
      rw [List.cons_append, endedLines, if_neg (Ne.symm hline.1), ih hline.2]
      rfl

/-- A text that is made of lines has these lines. -/
theorem endedLines_flatten [DecidableEq α] {sep : α} {lines : List (List α)}
    (hlines : ∀ line ∈ lines, ∃ body, line = body ++ [sep] ∧ sep ∉ body) :
    endedLines sep lines.flatten = lines := by
  induction lines with
  | nil => rfl
  | cons line lines ih =>
      obtain ⟨body, rfl, hbody⟩ := hlines line List.mem_cons_self
      rw [List.flatten_cons, List.append_assoc, List.singleton_append, endedLines_line hbody,
        ih fun line hline => hlines line (List.mem_cons_of_mem _ hline)]

/-- The nonempty parts between elements that are blank. -/
def fields (blank : α → Bool) (text : List α) : List (List α) :=
  (text.splitOnP blank).filter fun part => !part.isEmpty

variable {blank : α → Bool}

/-- A word, a blank, and the rest. -/
theorem fields_word {word : List α} (hword : ∀ c ∈ word, blank c = false) (hne : word ≠ [])
    {c : α} (hc : blank c = true) (rest : List α) :
    fields blank (word ++ c :: rest) = word :: fields blank rest := by
  unfold fields
  rw [List.splitOnP_append_cons word rest hc, List.filter_append,
    List.splitOnP_eq_singleton hword]
  cases word with
  | nil => exact absurd rfl hne
  | cons a word => rfl

theorem fields_blank {text : List α} (htext : ∀ c ∈ text, blank c = true) :
    fields blank text = [] := by
  induction text with
  | nil => rfl
  | cons c text ih =>
      have hsplit := List.splitOnP_append_cons [] text (htext c List.mem_cons_self)
      rw [List.nil_append] at hsplit
      unfold fields at ih ⊢
      rw [hsplit, List.filter_append, ih fun d hd => htext d (List.mem_cons_of_mem _ hd)]
      rfl

/-- Words with single blanks between them, and blanks at the end. -/
theorem fields_intercalate {delim c : α} {words : List (List α)}
    (hwords : ∀ word ∈ words, word ≠ [] ∧ ∀ d ∈ word, blank d = false)
    (hdelim : blank delim = true) {tail : List α} (htail : ∀ d ∈ c :: tail, blank d = true) :
    fields blank ([delim].intercalate words ++ c :: tail) = words := by
  have hc := htail c List.mem_cons_self
  have hrest : fields blank tail = [] :=
    fields_blank fun d hd => htail d (List.mem_cons_of_mem _ hd)
  induction words with
  | nil => exact fields_blank htail
  | cons word words ih =>
      obtain ⟨hne, hword⟩ := hwords word List.mem_cons_self
      cases words with
      | nil => rw [List.intercalate_singleton, fields_word hword hne hc, hrest]
      | cons next words =>
          rw [List.intercalate_cons_cons, List.append_assoc, List.append_assoc,
            List.singleton_append, fields_word hword hne hdelim,
            ih fun word hmem => hwords word (List.mem_cons_of_mem _ hmem)]

end Fields

/-! ## Numbers -/

/-- The digits of a number are at most as many as any digits with its value. -/
theorem length_toDigits_ofDigitChars_le {digits : List Char} (hne : digits ≠ [])
    (hdigits : ∀ c ∈ digits, c.isDigit) :
    (Nat.toDigits 10 (Nat.ofDigitChars 10 digits 0)).length ≤ digits.length := by
  rw [Nat.length_toDigits_le_iff (by norm_num) (List.length_pos_iff.mpr hne)]
  clear hne
  induction digits using List.reverseRecOn with
  | nil => norm_num [Nat.ofDigitChars]
  | append_singleton digits c ih =>
      have hc : c.toNat - 48 ≤ 9 := by
        have := hdigits c (List.mem_append_right _ (List.mem_singleton_self c))
        simp only [Char.isDigit, Bool.and_eq_true, decide_eq_true_eq] at this
        have hle : c.toNat ≤ 57 := this.2
        omega
      have hfirst := ih fun d hd => hdigits d (List.mem_append_left _ hd)
      rw [Nat.ofDigitChars_append, Nat.ofDigitChars_cons, Nat.ofDigitChars_nil, List.length_append,
        List.length_singleton, pow_succ]
      show 10 * Nat.ofDigitChars 10 digits 0 + (c.toNat - 48) < _
      omega
