import CausalBroadcast.Model.Log
import CausalBroadcast.Model.Scripts
import CausalBroadcast.Parser.Format

/-!
# What the scripts read

The words of a line of the log, and of a line of the membership file, are what
`str.split` makes of it (`pySplit_text`, `pySplit_lineText`), `int` reads the numbers
(`pyInt_decimal`), and the lines of a file are the lines that were written
(`pyLines_outputText`, `pyLines_layout`).
-/

namespace CausalBroadcast

/-! ## Words -/

theorem pySpace_eq_false_of_isDigit {c : Char} (hc : c.isDigit) : pySpace c = false := by
  simp only [Char.isDigit, Bool.and_eq_true, decide_eq_true_eq] at hc
  have hge : 48 ≤ c.toNat := hc.1
  have hle : c.toNat ≤ 57 := hc.2
  unfold pySpace
  simp only [decide_eq_false_iff_not]
  omega

/-- A word of a line: not empty, and without white space. -/
def IsPyWord (word : List Char) : Prop := word ≠ [] ∧ ∀ c ∈ word, pySpace c = false

theorem isPyWord_decimal (n : ℕ) : IsPyWord (decimal n) :=
  ⟨decimal_ne_nil n, fun _ hc => pySpace_eq_false_of_isDigit (isDigit_of_mem_decimal hc)⟩

theorem pySplit_lineText {words : List (List Char)} (hwords : ∀ word ∈ words, IsPyWord word)
    (trailing : Bool) : pySplit (lineText words ++ lineEnd trailing) = words := by
  have hblank : pySpace ' ' = true := by decide
  have hnewline : pySpace '\n' = true := by decide
  unfold pySplit lineText lineEnd
  cases trailing with
  | false => exact fields_intercalate hwords hblank (List.forall_mem_cons.mpr ⟨hnewline, nofun⟩)
  | true =>
      exact fields_intercalate hwords hblank
        (List.forall_mem_cons.mpr ⟨hblank, List.forall_mem_cons.mpr ⟨hnewline, nofun⟩⟩)

/-- The words of a line of the log. -/
def LogLine.words : LogLine → List (List Char)
  | broadcast seq => [['b'], decimal (u32 seq)]
  | deliver pid seq => [['d'], decimal (u32 pid), decimal (u32 seq)]

theorem LogLine.text_eq (line : LogLine) : line.text = lineText line.words ++ lineEnd false := by
  cases line with
  | broadcast seq => simp [text, words, lineText, lineEnd, decimal]
  | deliver pid seq => simp [text, words, lineText, lineEnd, decimal]

theorem isPyWord_words (line : LogLine) : ∀ word ∈ line.words, IsPyWord word := by
  have hletter : ∀ c : Char, pySpace c = false → IsPyWord [c] := by
    intro c hc
    refine ⟨List.cons_ne_nil _ _, fun d hd => ?_⟩
    rw [List.mem_singleton.mp hd, hc]
  intro word hword
  cases line with
  | broadcast seq =>
      rcases List.mem_pair.mp hword with rfl | rfl
      · exact hletter 'b' (by decide)
      · exact isPyWord_decimal _
  | deliver pid seq =>
      rcases List.mem_cons.mp hword with rfl | hword
      · exact hletter 'd' (by decide)
      · rcases List.mem_pair.mp hword with rfl | rfl
        · exact isPyWord_decimal _
        · exact isPyWord_decimal _

/-- The fields of a line of the log. -/
theorem pySplit_text (line : LogLine) : pySplit line.text = line.words := by
  rw [line.text_eq]
  exact pySplit_lineText (isPyWord_words line) false

/-! ## Numbers -/

/-- `int` reads a number that was printed. -/
theorem pyInt_decimal (n : ℕ) : pyInt (decimal n) = .ok (n : ℤ) := by
  obtain ⟨c, digits, hcons, hdigit⟩ := exists_decimal_cons n
  have hsign : ∀ sign : Char, ¬ sign.isDigit → c ≠ sign := by
    rintro sign hsign rfl
    exact hsign hdigit
  have hdigits : pyDigits (decimal n) = some n := by
    have hone : (decimal n).splitOn '_' = [decimal n] :=
      List.splitOn_eq_singleton fun hmem => not_mem_decimal (by decide) hmem
    have hall : (decimal n).all Char.isDigit = true :=
      List.all_eq_true.mpr fun d hd => isDigit_of_mem_decimal hd
    have hvalue : Nat.ofDigitChars 10 (decimal n) 0 = n := Nat.ofDigitChars_ten_toDigits
    unfold pyDigits
    simp [hone, hall, hvalue, decimal_ne_nil]
  have hplain : pyInt (decimal n) =
      orRaise .valueError ((pyDigits (decimal n)).map Int.ofNat) := by
    rw [hcons]
    unfold pyInt
    split
    · rename_i heq
      exact absurd (List.cons.inj heq).1 (hsign '-' (by decide))
    · rename_i heq
      exact absurd (List.cons.inj heq).1 (hsign '+' (by decide))
    · rfl
  rw [hplain, hdigits]
  rfl

/-! ## Lines -/

theorem universalNewlines_of_not_mem {text : List Char} (htext : '\r' ∉ text) :
    universalNewlines text = text := by
  induction text with
  | nil => rfl
  | cons c text ih =>
      rw [List.mem_cons, not_or] at htext
      rw [universalNewlines.eq_3 c text (fun _ hc => absurd hc.symm htext.1)
        (fun hc => absurd hc.symm htext.1), ih htext.2]

/-- A line: something without a line end, and the line end. -/
def IsPyLine (line : List Char) : Prop :=
  ∃ body, line = body ++ ['\n'] ∧ '\n' ∉ body ∧ '\r' ∉ body

/-- The lines of a text that is made of lines. -/
theorem pyLines_flatten {lines : List (List Char)} (hlines : ∀ line ∈ lines, IsPyLine line) :
    pyLines lines.flatten = lines := by
  have hreturn : '\r' ∉ lines.flatten := by
    intro hmem
    obtain ⟨line, hline, hc⟩ := List.mem_flatten.mp hmem
    obtain ⟨body, rfl, -, hbody⟩ := hlines line hline
    rcases List.mem_append.mp hc with hc | hc
    · exact hbody hc
    · exact absurd hc (by decide)
  unfold pyLines
  rw [universalNewlines_of_not_mem hreturn]
  apply endedLines_flatten
  intro line hline
  obtain ⟨body, hbody, hnew, -⟩ := hlines line hline
  exact ⟨body, hbody, hnew⟩

theorem isPyLine_lineText {words : List (List Char)} (hwords : ∀ word ∈ words, IsPyWord word)
    (trailing : Bool) : IsPyLine (lineText words ++ lineEnd trailing) := by
  have hnot : ∀ c : Char, pySpace c = true → c ≠ ' ' → c ∉ lineText words := by
    intro c hc hne hmem
    rcases mem_intercalate hmem with heq | ⟨word, hword, hin⟩
    · exact hne heq
    · rw [(hwords word hword).2 c hin] at hc
      cases hc
  have hnew := hnot '\n' (by decide) (by decide)
  have hreturn := hnot '\r' (by decide) (by decide)
  cases trailing with
  | false => exact ⟨lineText words, rfl, hnew, hreturn⟩
  | true =>
      refine ⟨lineText words ++ [' '], by simp [lineEnd], ?_, ?_⟩
      · simp [hnew]
      · simp [hreturn]

/-- The output with the lines of a log. -/
def outputText (log : List LogLine) : List Char := (log.map LogLine.text).flatten

theorem pyLines_outputText (log : List LogLine) :
    pyLines (outputText log) = log.map LogLine.text := by
  apply pyLines_flatten
  intro line hline
  obtain ⟨logged, -, rfl⟩ := List.mem_map.mp hline
  rw [logged.text_eq]
  exact isPyLine_lineText (isPyWord_words logged) false

/-! ## The membership file -/

/-- The lines for the items, from `pid` on. -/
def itemLines {β : Type} (words : ℕ → β → List (List Char)) (trailing : ℕ → Bool) :
    ℕ → List β → List (List Char)
  | _, [] => []
  | pid, item :: items =>
      (lineText (words pid item) ++ lineEnd (trailing pid)) ::
        itemLines words trailing (pid + 1) items

section ItemLines

variable {β : Type} {words : ℕ → β → List (List Char)} {trailing : ℕ → Bool}

theorem flatten_itemLines (pid : ℕ) (items : List β) :
    (itemLines words trailing pid items).flatten = writeLines words trailing pid items := by
  induction items generalizing pid with
  | nil => rfl
  | cons item items ih => rw [itemLines, List.flatten_cons, ih, writeLines]

@[simp] theorem length_itemLines (pid : ℕ) (items : List β) :
    (itemLines words trailing pid items).length = items.length := by
  induction items generalizing pid with
  | nil => rfl
  | cons item items ih => rw [itemLines, List.length_cons, ih, List.length_cons]

theorem isPyLine_itemLines (hwords : ∀ pid item, ∀ word ∈ words pid item, IsPyWord word)
    (pid : ℕ) (items : List β) : ∀ line ∈ itemLines words trailing pid items, IsPyLine line := by
  induction items generalizing pid with
  | nil =>
      intro line hline
      cases hline
  | cons item items ih =>
      intro line hline
      rcases List.mem_cons.mp hline with rfl | hline
      · exact isPyLine_lineText (hwords pid item) _
      · exact ih (pid + 1) line hline

end ItemLines

theorem isPyWord_depWords (pid : ℕ) (deps : List ℕ) : ∀ word ∈ depWords pid deps,
    IsPyWord word := by
  intro word hword
  obtain ⟨n, -, rfl⟩ := List.mem_map.mp hword
  exact isPyWord_decimal n

theorem isPyWord_hostWords (pid : ℕ) (host : Host) : ∀ word ∈ hostWords pid host,
    IsPyWord word := by
  have hip : IsPyWord host.ipv4.text := by
    refine ⟨?_, fun c hc => ?_⟩
    · unfold Ipv4.text
      rw [List.intercalate_cons_cons]
      exact List.append_ne_nil_of_left_ne_nil
        (List.append_ne_nil_of_left_ne_nil (decimal_ne_nil _) _) _
    · rcases mem_intercalate hc with rfl | ⟨word, hword, hin⟩
      · decide
      · have hdecimal : ∃ n, word = decimal n := by
          simp only [List.mem_cons, List.not_mem_nil, or_false] at hword
          rcases hword with rfl | rfl | rfl | rfl <;> exact ⟨_, rfl⟩
        obtain ⟨n, rfl⟩ := hdecimal
        exact pySpace_eq_false_of_isDigit (isDigit_of_mem_decimal hin)
  intro word hword
  simp only [hostWords, List.mem_cons, List.not_mem_nil, or_false] at hword
  rcases hword with rfl | rfl | rfl
  · exact isPyWord_decimal pid
  · exact hip
  · exact isPyWord_decimal _

/-- The lines of the membership file. -/
theorem pyLines_layout (layout : Layout) (trailing : Trailing) :
    pyLines (layout.text trailing) =
      (decimal layout.hosts.length ++ lineEnd trailing.first) ::
        (itemLines hostWords trailing.hosts 1 layout.hosts ++
          itemLines depWords trailing.dependencies 1 layout.dependencies) := by
  have hfirst : IsPyLine (decimal layout.hosts.length ++ lineEnd trailing.first) := by
    have hwords : ∀ word ∈ [decimal layout.hosts.length], IsPyWord word := by
      intro word hword
      rw [List.mem_singleton.mp hword]
      exact isPyWord_decimal _
    have hline := isPyLine_lineText hwords trailing.first
    rwa [lineText, List.intercalate_singleton] at hline
  rw [Layout.text, ← flatten_itemLines, ← flatten_itemLines, ← List.flatten_append,
    ← List.flatten_cons]
  apply pyLines_flatten
  intro line hline
  rcases List.mem_cons.mp hline with rfl | hline
  · exact hfirst
  · rcases List.mem_append.mp hline with hline | hline
    · exact isPyLine_itemLines isPyWord_hostWords 1 _ line hline
    · exact isPyLine_itemLines isPyWord_depWords 1 _ line hline

end CausalBroadcast
