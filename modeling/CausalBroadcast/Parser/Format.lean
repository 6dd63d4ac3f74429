import CausalBroadcast.Model.Parser
import Mathlib.Data.List.TakeWhile

/-!
# The format of the membership file

The documented format: the number of processes, a line `pid ip port` for each of
them, and a line `pid dep dep ...` for each of them, with single spaces and an
optional trailing space before every newline (`Layout.text`).  The words of a
line are what the conversions of the parser read (`atoi_decimal`,
`inetAton_text`), and a line that `fgets` reads in one piece has its words as
tokens (`strtok_lineText`).
-/

namespace CausalBroadcast

/-! ## The words -/

/-- A number as it is printed. -/
def decimal (n : ℕ) : List Char := Nat.toDigits 10 n

/-- An IPv4 address `a.b.c.d`. -/
structure Ipv4 where
  a : Fin 256
  b : Fin 256
  c : Fin 256
  d : Fin 256
  deriving DecidableEq, Repr

/-- The address in dotted notation. -/
def Ipv4.text (ip : Ipv4) : List Char :=
  ['.'].intercalate [decimal ip.a, decimal ip.b, decimal ip.c, decimal ip.d]

/-- The address as a number, the first byte being the highest. -/
def Ipv4.value (ip : Ipv4) : ℕ := 256 * (256 * (256 * ip.a + ip.b) + ip.c) + ip.d

/-- The address and the port of a process. -/
structure Host where
  ipv4 : Ipv4
  port : Fin (2 ^ 16)
  deriving DecidableEq, Repr

/-- The entry of the address book. -/
def Host.sockaddr (host : Host) : SockaddrIn := ⟨htons host.port, host.ipv4.value⟩

/-- `pid ip port`. -/
def hostWords (pid : ℕ) (host : Host) : List (List Char) :=
  [decimal pid, host.ipv4.text, decimal host.port]

/-- `pid dep dep ...`. -/
def depWords (pid : ℕ) (deps : List ℕ) : List (List Char) := (pid :: deps).map decimal

/-! ## The file -/

/-- The words of a line, with single spaces. -/
def lineText (words : List (List Char)) : List Char := [' '].intercalate words

/-- The end of a line. -/
def lineEnd (trailing : Bool) : List Char := if trailing then [' ', '\n'] else ['\n']

/-- A line for every item, from `pid` on. -/
def writeLines {β : Type} (words : ℕ → β → List (List Char)) (trailing : ℕ → Bool) :
    ℕ → List β → List Char
  | _, [] => []
  | pid, item :: items =>
      lineText (words pid item) ++ lineEnd (trailing pid) ++
        writeLines words trailing (pid + 1) items

/-- Which lines have a trailing space. -/
structure Trailing where
  first : Bool
  hosts : ℕ → Bool
  dependencies : ℕ → Bool

/-- What a membership file says: the address of every process, and its list of distinct
dependencies. -/
structure Layout where
  hosts : List Host
  dependencies : List (List ℕ)
  hosts_ne_nil : hosts ≠ []
  length_dependencies : dependencies.length = hosts.length
  mem_range : ∀ list ∈ dependencies, ∀ pid ∈ list, 1 ≤ pid ∧ pid ≤ hosts.length
  nodup : ∀ list ∈ dependencies, list.Nodup

/-- The membership file. -/
def Layout.text (layout : Layout) (trailing : Trailing) : List Char :=
  decimal layout.hosts.length ++ lineEnd trailing.first ++
    (writeLines hostWords trailing.hosts 1 layout.hosts ++
      writeLines depWords trailing.dependencies 1 layout.dependencies)

/-! ## Numbers -/

section Numbers

variable {n : ℕ} {tail : List Char}

/-- The text does not go on with a digit. -/
def NoDigit (tail : List Char) : Prop := ∀ c ∈ tail.head?, ¬ c.isDigit

theorem isDigit_of_mem_decimal {c : Char} (hc : c ∈ decimal n) : c.isDigit :=
  Nat.isDigit_of_mem_toDigits (by norm_num) le_rfl hc

theorem decimal_ne_nil (n : ℕ) : decimal n ≠ [] := Nat.toDigits_ne_nil

theorem length_decimal_le {k : ℕ} (hk : 0 < k) (hn : n < 10 ^ k) : (decimal n).length ≤ k :=
  (Nat.length_toDigits_le_iff (by norm_num) hk).mpr hn

theorem not_mem_decimal {c : Char} (hc : ¬ c.isDigit) : c ∉ decimal n :=
  fun hmem => hc (isDigit_of_mem_decimal hmem)

theorem takeWhile_decimal {p : Char → Bool} (hp : ∀ c, c.isDigit → p c)
    (htail : ∀ c ∈ tail.head?, ¬ p c) :
    (decimal n ++ tail).takeWhile p = decimal n ∧ (decimal n ++ tail).dropWhile p = tail := by
  have hall : ∀ c ∈ decimal n, p c := fun c hc => hp c (isDigit_of_mem_decimal hc)
  rw [List.takeWhile_append_of_pos hall, List.dropWhile_append_of_pos hall]
  cases tail with
  | nil => exact ⟨List.append_nil _, rfl⟩
  | cons c tail =>
      have hc : ¬ p c := htail c rfl
      rw [List.takeWhile_cons_of_neg hc, List.dropWhile_cons_of_neg hc, List.append_nil]
      exact ⟨rfl, rfl⟩

theorem exists_decimal_cons (n : ℕ) : ∃ c digits, decimal n = c :: digits ∧ c.isDigit := by
  obtain ⟨c, digits, hcons⟩ := List.exists_cons_of_ne_nil (decimal_ne_nil n)
  exact ⟨c, digits, hcons, isDigit_of_mem_decimal (hcons ▸ List.mem_cons_self)⟩

/-- A number is read back. -/
theorem atoi_decimal (hn : n < 2 ^ 31) (htail : NoDigit tail) :
    atoi (decimal n ++ tail) = some (n : ℤ) := by
  obtain ⟨c, digits, hcons, hdigit⟩ := exists_decimal_cons n
  have hspace : ¬ isspace c = true := by
    intro hspace
    simp only [isspace, Bool.decide_or, Bool.decide_and, Bool.or_eq_true, Bool.and_eq_true,
      decide_eq_true_eq] at hspace
    simp only [Char.isDigit, Bool.and_eq_true, decide_eq_true_eq] at hdigit
    have hge : 48 ≤ c.toNat := hdigit.1
    rcases hspace with rfl | ⟨-, hle⟩
    · exact absurd hge (by decide)
    · omega
  have hsign : ∀ sign : Char, ¬ sign.isDigit → some c ≠ some sign := by
    rintro sign hsign ⟨⟩
    exact hsign hdigit
  have hdrop : (decimal n ++ tail).dropWhile isspace = decimal n ++ tail := by
    rw [hcons, List.cons_append, List.dropWhile_cons_of_neg hspace]
  have hhead : (decimal n ++ tail).head? = some c := by rw [hcons]; rfl
  have htake := (takeWhile_decimal (n := n) (p := Char.isDigit) (fun _ => id) htail).1
  have hvalue : Nat.ofDigitChars 10 (decimal n) 0 = n := Nat.ofDigitChars_ten_toDigits
  unfold atoi
  simp only [hdrop, hhead, hsign '-' (by decide), hsign '+' (by decide), or_self, if_false, htake,
    hvalue]
  exact if_pos (by omega)

theorem readDigits_decimal (htail : ∀ c ∈ tail.head?, ¬ charDigit c < 10) :
    readDigits 10 (decimal n ++ tail) = (n, tail) := by
  have hdigit : ∀ c : Char, c.isDigit → decide (charDigit c < 10) = true := by
    intro c hc
    unfold charDigit
    rw [if_pos hc]
    simp only [Char.isDigit, Bool.and_eq_true, decide_eq_true_eq] at hc
    have hle : c.toNat ≤ 57 := hc.2
    exact decide_eq_true (by omega)
  have hstop : ∀ c ∈ tail.head?, ¬ decide (charDigit c < 10) = true := by
    intro c hc
    simpa using htail c hc
  obtain ⟨htake, hdrop⟩ := takeWhile_decimal (n := n) hdigit hstop
  unfold readDigits
  rw [htake, hdrop]
  refine Prod.ext ?_ rfl
  have hvalue : Nat.ofDigitChars 10 (decimal n) 0 = n := Nat.ofDigitChars_ten_toDigits
  rw [Nat.ofDigitChars_eq_foldl] at hvalue
  refine (List.foldl_ext _ _ _ fun value c hc => ?_).trans hvalue
  rw [charDigit, if_pos (isDigit_of_mem_decimal hc)]
  rfl

/-- Only the number zero starts with the digit zero. -/
theorem head_decimal_ne (hn : 0 < n) : (decimal n).head? ≠ some '0' := by
  induction n using Nat.strongRecOn with
  | _ n ih =>
      unfold decimal
      rw [Nat.toDigits_eq_if (by norm_num)]
      split
      · interval_cases n <;> decide
      · rw [List.head?_append_of_ne_nil _ Nat.toDigits_ne_nil]
        exact ih (n / 10) (by omega) (by omega)

theorem strtoul_of_ne {c : Char} (hc : c ≠ '0') (text : List Char) :
    strtoul (c :: text) = readDigits 10 (c :: text) := by
  unfold strtoul
  split
  · rename_i heq
    exact absurd (List.cons.inj heq).1 hc
  · rename_i heq
    exact absurd (List.cons.inj heq).1 hc
  · rfl

theorem strtoul_zero (htail : tail = [] ∨ ∃ rest, tail = '.' :: rest) :
    strtoul ('0' :: tail) = (0, tail) := by
  rcases htail with rfl | ⟨_ | ⟨c, rest⟩, rfl⟩
  · rfl
  · rfl
  · rfl

/-- A part of a dotted address is read back. -/
theorem strtoul_decimal (n : ℕ) (htail : tail = [] ∨ ∃ rest, tail = '.' :: rest) :
    strtoul (decimal n ++ tail) = (n, tail) := by
  rcases Nat.eq_zero_or_pos n with rfl | hpos
  · exact strtoul_zero htail
  · obtain ⟨c, digits, hcons, -⟩ := exists_decimal_cons n
    have hc : c ≠ '0' := by
      have hhead := head_decimal_ne hpos
      rw [hcons] at hhead
      rintro rfl
      exact hhead rfl
    have hread : readDigits 10 (decimal n ++ tail) = (n, tail) := by
      apply readDigits_decimal
      rcases htail with rfl | ⟨rest, rfl⟩
      · exact nofun
      · rintro _ ⟨⟩
        decide
    rw [← hread, hcons, List.cons_append, strtoul_of_ne hc]

theorem inetAtonFrom_dot {left high : ℕ} (hn : n < 256) (rest : List Char) :
    inetAtonFrom (left + 1) high (decimal n ++ '.' :: rest) =
      inetAtonFrom left (256 * high + n) rest := by
  obtain ⟨c, digits, hcons, hdigit⟩ := exists_decimal_cons n
  have hhead : (decimal n ++ '.' :: rest).head?.all Char.isDigit ∧
      decimal n ++ '.' :: rest ≠ [] := by
    rw [hcons]
    exact ⟨hdigit, List.cons_ne_nil _ _⟩
  conv_lhs => unfold inetAtonFrom
  rw [if_pos hhead, strtoul_decimal n (.inr ⟨rest, rfl⟩)]
  exact if_neg (not_lt.mpr (Nat.le_of_lt_succ hn))

theorem inetAtonFrom_last {high : ℕ} (hn : n < 256) :
    inetAtonFrom 0 high (decimal n) = some (256 * high + n) := by
  obtain ⟨c, digits, hcons, hdigit⟩ := exists_decimal_cons n
  have hhead : (decimal n).head?.all Char.isDigit ∧ decimal n ≠ [] := by
    rw [hcons]
    exact ⟨hdigit, List.cons_ne_nil _ _⟩
  have hread : strtoul (decimal n ++ []) = (n, []) := strtoul_decimal n (.inl rfl)
  rw [List.append_nil] at hread
  unfold inetAtonFrom
  rw [if_pos hhead, hread]
  simp only [List.head?_nil, Option.all_none, true_and, zero_add, pow_one, hn, if_true]
  rw [mul_comm]

/-- An address is read back. -/
theorem inetAton_text (ip : Ipv4) : inetAton ip.text = some ip.value := by
  unfold inetAton Ipv4.text
  simp only [List.intercalate_cons_cons, List.intercalate_singleton, List.append_assoc,
    List.singleton_append]
  rw [inetAtonFrom_dot ip.a.isLt, inetAtonFrom_dot ip.b.isLt, inetAtonFrom_dot ip.c.isLt,
    inetAtonFrom_last ip.d.isLt]
  unfold Ipv4.value
  rw [mul_zero, zero_add]

end Numbers

/-! ## Lines -/

/-- A word of digits and dots. -/
structure IsField (word : List Char) : Prop where
  ne_nil : word ≠ []
  chars : ∀ c ∈ word, c.isDigit ∨ c = '.'

theorem IsField.not_mem {word : List Char} (h : IsField word) {c : Char} (hdigit : ¬ c.isDigit)
    (hdot : c ≠ '.') : c ∉ word :=
  fun hc => (h.chars c hc).elim hdigit hdot

theorem IsField.isWord {word : List Char} (h : IsField word) : IsWord ' ' word :=
  ⟨h.ne_nil, h.not_mem (by decide) (by decide)⟩

theorem isField_decimal (n : ℕ) : IsField (decimal n) :=
  ⟨decimal_ne_nil n, fun _ hc => .inl (isDigit_of_mem_decimal hc)⟩

theorem isField_ip (ip : Ipv4) : IsField ip.text := by
  constructor
  · unfold Ipv4.text
    rw [List.intercalate_cons_cons, List.append_assoc]
    exact List.append_ne_nil_of_left_ne_nil (decimal_ne_nil _) _
  · intro c hc
    rcases mem_intercalate hc with hdot | ⟨word, hword, hmem⟩
    · exact .inr hdot
    · simp only [List.mem_cons, List.not_mem_nil, or_false] at hword
      rcases hword with rfl | rfl | rfl | rfl <;> exact .inl (isDigit_of_mem_decimal hmem)

theorem isField_hostWords (pid : ℕ) (host : Host) : ∀ word ∈ hostWords pid host, IsField word := by
  intro word hword
  simp only [hostWords, List.mem_cons, List.not_mem_nil, or_false] at hword
  rcases hword with rfl | rfl | rfl
  · exact isField_decimal pid
  · exact isField_ip host.ipv4
  · exact isField_decimal host.port

theorem isField_depWords (pid : ℕ) (deps : List ℕ) : ∀ word ∈ depWords pid deps, IsField word := by
  intro word hword
  obtain ⟨n, -, rfl⟩ := List.mem_map.mp hword
  exact isField_decimal n

section Lines

variable {words : List (List Char)} {last ending : List Char} {trailing : Bool}

theorem not_mem_lineText (hwords : ∀ word ∈ words, IsField word) {c : Char}
    (hdigit : ¬ c.isDigit) (hdot : c ≠ '.') (hspace : c ≠ ' ') : c ∉ lineText words := by
  intro hc
  rcases mem_intercalate hc with rfl | ⟨word, hword, hmem⟩
  · exact hspace rfl
  · exact (hwords word hword).not_mem hdigit hdot hmem

/-- A buffer without a zero is a string as a whole. -/
theorem strtok_eq_tokens {text : List Char} (h : '\x00' ∉ text) :
    strtok text = tokens ' ' text := by
  have hall : ∀ c ∈ text, decide (c ≠ '\x00') = true := fun c hc =>
    decide_eq_true fun hzero => h (hzero ▸ hc)
  rw [strtok, cString, List.takeWhile_eq_self_iff.mpr hall]

theorem zero_not_mem_lineEnd (trailing : Bool) : '\x00' ∉ lineEnd trailing := by
  cases trailing <;> decide

theorem strtok_words (hwords : ∀ word ∈ words, IsField word) :
    strtok (lineText words) = words := by
  rw [strtok_eq_tokens (not_mem_lineText hwords (by decide) (by decide) (by decide))]
  exact tokens_intercalate fun word hword => (hwords word hword).isWord

/-- The tokens of a line, of which the end may be cut off. -/
theorem strtok_lineText (hfields : ∀ word ∈ words ++ [last], IsField word)
    (hending : ending <+: lineEnd trailing) :
    ∃ close more, strtok (lineText (words ++ [last]) ++ ending) =
        words ++ [last ++ close] ++ more ∧
      (close = [] ∨ close = ['\n']) ∧ (more = [] ∨ more = [['\n']]) := by
  have hzero : '\x00' ∉ lineText (words ++ [last]) ++ ending := by
    rw [List.mem_append, not_or]
    exact ⟨not_mem_lineText hfields (by decide) (by decide) (by decide),
      fun hmem => zero_not_mem_lineEnd trailing (hending.subset hmem)⟩
  have hwords : ∀ word ∈ words ++ [last], IsWord ' ' word := fun word hword =>
    (hfields word hword).isWord
  rw [strtok_eq_tokens hzero]
  have hline : tokens ' ' (lineText (words ++ [last])) = words ++ [last] :=
    tokens_intercalate hwords
  have hclosed : tokens ' ' (lineText (words ++ [last]) ++ ['\n']) =
      words ++ [last ++ ['\n']] := by
    unfold lineText
    rw [intercalate_concat_append, tokens_intercalate]
    intro word hword
    rcases List.mem_append.mp hword with hmem | hmem
    · exact hwords word (List.mem_append_left _ hmem)
    · rw [List.mem_singleton] at hmem
      have hlast := hwords last (List.mem_append_right _ List.mem_cons_self)
      refine hmem ▸ ⟨List.append_ne_nil_of_left_ne_nil hlast.1 _, ?_⟩
      rw [List.mem_append, not_or]
      exact ⟨hlast.2, by decide⟩
  have hspaced : ∀ tail, tokens ' ' (lineText (words ++ [last]) ++ ' ' :: tail) =
      words ++ [last] ++ tokens ' ' tail := by
    intro tail
    rw [tokens_append_delim]
    exact congrArg (· ++ _) hline
  -- Of the end of the line any part may lie in the buffer.
  have hcases : ending = [] ∨ ending = ['\n'] ∨ ending = [' '] ∨ ending = [' ', '\n'] := by
    cases trailing with
    | false =>
        rcases List.prefix_cons_iff.mp hending with rfl | ⟨t, rfl, ht⟩
        · exact .inl rfl
        · rw [List.prefix_nil.mp ht]
          exact .inr (.inl rfl)
    | true =>
        rcases List.prefix_cons_iff.mp hending with rfl | ⟨t, rfl, ht⟩
        · exact .inl rfl
        · rcases List.prefix_cons_iff.mp ht with rfl | ⟨u, rfl, hu⟩
          · exact .inr (.inr (.inl rfl))
          · rw [List.prefix_nil.mp hu]
            exact .inr (.inr (.inr rfl))
  rcases hcases with rfl | rfl | rfl | rfl
  · refine ⟨[], [], ?_, .inl rfl, .inl rfl⟩
    simpa only [List.append_nil] using hline
  · exact ⟨['\n'], [], by rw [hclosed, List.append_nil], .inr rfl, .inl rfl⟩
  · refine ⟨[], [], ?_, .inl rfl, .inl rfl⟩
    simp only [hspaced, tokens_nil, List.append_nil]
  · refine ⟨[], [['\n']], ?_, .inl rfl, .inr rfl⟩
    rw [hspaced, List.append_nil]
    rfl

/-- A line whose text fits into the buffer is read up to a part of its end. -/
theorem chunk_lineText {text : List Char} (htext : '\n' ∉ text) (hlt : text.length < lineMaxLength)
    (trailing : Bool) (rest : List Char) :
    ∃ ending left, ending ++ left = lineEnd trailing ∧
      chunk '\n' (lineMaxLength - 1) (text ++ lineEnd trailing ++ rest) =
        (text ++ ending, left ++ rest) ∧
      (left = [] ↔ (text ++ lineEnd trailing).length < lineMaxLength) := by
  have hspace : '\n' ∉ text ++ [' '] := by
    rw [List.mem_append, not_or]
    exact ⟨htext, by decide⟩
  have hcut : ∀ {line : List Char} (tail : List Char), '\n' ∉ line →
      line.length = lineMaxLength - 1 →
      chunk '\n' (lineMaxLength - 1) (line ++ tail) = (line, tail) := by
    intro line tail hline hlength
    rw [← hlength]
    exact chunk_cut hline tail
  unfold lineMaxLength at *
  rw [List.append_assoc]
  cases trailing with
  | false =>
      rcases Nat.lt_or_ge text.length 31 with hfits | hlong
      · refine ⟨['\n'], [], rfl, chunk_line htext hfits rest, iff_of_true rfl ?_⟩
        simp only [lineEnd, Bool.false_eq_true, if_false, List.length_append,
          List.length_singleton]
        omega
      · refine ⟨[], ['\n'], rfl, ?_, iff_of_false (List.cons_ne_nil _ _) ?_⟩
        · rw [List.append_nil]
          exact hcut _ htext (by omega)
        · simp only [lineEnd, Bool.false_eq_true, if_false, List.length_append,
            List.length_singleton]
          omega
  | true =>
      have hassoc : ∀ tail : List Char, text ++ ' ' :: tail = (text ++ [' ']) ++ tail :=
        fun tail => by rw [List.append_assoc]; rfl
      have hlength : (text ++ [' ']).length = text.length + 1 := List.length_append
      have hline : (text ++ lineEnd true).length = text.length + 2 := List.length_append
      rw [hline]
      -- 31 characters fit: all of the end, or the blank alone, or nothing of it.
      rcases Nat.lt_or_ge text.length 30 with hfits | hlong
      · refine ⟨[' ', '\n'], [], rfl, ?_, iff_of_true rfl (by omega)⟩
        show chunk '\n' 31 (text ++ ' ' :: '\n' :: rest) = _
        rw [hassoc, chunk_line hspace (by omega) rest, List.append_assoc]
        rfl
      · rcases Nat.lt_or_ge text.length 31 with hmid | hfull
        · refine ⟨[' '], ['\n'], rfl, ?_, iff_of_false (List.cons_ne_nil _ _) (by omega)⟩
          show chunk '\n' 31 (text ++ ' ' :: '\n' :: rest) = _
          rw [hassoc]
          exact hcut _ hspace (by omega)
        · refine ⟨[], [' ', '\n'], rfl, ?_, iff_of_false (List.cons_ne_nil _ _) (by omega)⟩
          rw [List.append_nil]
          exact hcut _ htext (by omega)

end Lines

end CausalBroadcast
