import Mathlib.Data.List.Basic
import Mathlib.Tactic

/-!
# 32-bit words in memory

A block of memory is a list of bytes, and a word takes four of them, the lowest
first.  `wordsBytes` lays words out, `toWords` reads a block as an array of words;
bytes at the end that make no whole word are not read.
-/

/-- The four bytes of a word. -/
def wordBytes (n : ℕ) : List UInt8 :=
  [UInt8.ofNat n, UInt8.ofNat (n / 2 ^ 8), UInt8.ofNat (n / 2 ^ 16), UInt8.ofNat (n / 2 ^ 24)]

/-- The word that four bytes make. -/
def bytesWord (b₀ b₁ b₂ b₃ : UInt8) : ℕ :=
  b₀.toNat + 2 ^ 8 * b₁.toNat + 2 ^ 16 * b₂.toNat + 2 ^ 24 * b₃.toNat

/-- The memory that holds an array of words. -/
def wordsBytes (words : List ℕ) : List UInt8 := words.flatMap wordBytes

/-- A block of memory as an array of words. -/
def toWords : List UInt8 → List ℕ
  | b₀ :: b₁ :: b₂ :: b₃ :: rest => bytesWord b₀ b₁ b₂ b₃ :: toWords rest
  | _ => []

theorem wordBytes_bytesWord (b₀ b₁ b₂ b₃ : UInt8) :
    wordBytes (bytesWord b₀ b₁ b₂ b₃) = [b₀, b₁, b₂, b₃] := by
  have h₀ := b₀.toNat_lt
  have h₁ := b₁.toNat_lt
  have h₂ := b₂.toNat_lt
  have h₃ := b₃.toNat_lt
  have hbyte : ∀ (n : ℕ) (b : UInt8), n % 2 ^ 8 = b.toNat → UInt8.ofNat n = b := by
    intro n b h
    apply UInt8.toNat_inj.mp
    rw [UInt8.toNat_ofNat', h]
  unfold wordBytes bytesWord
  rw [hbyte _ b₀ (by omega), hbyte _ b₁ (by omega), hbyte _ b₂ (by omega), hbyte _ b₃ (by omega)]

@[simp] theorem toWords_wordBytes_append (n : ℕ) (bytes : List UInt8) :
    toWords (wordBytes n ++ bytes) = n % 2 ^ 32 :: toWords bytes := by
  have hword : bytesWord (UInt8.ofNat n) (UInt8.ofNat (n / 2 ^ 8)) (UInt8.ofNat (n / 2 ^ 16))
      (UInt8.ofNat (n / 2 ^ 24)) = n % 2 ^ 32 := by
    simp only [bytesWord, UInt8.toNat_ofNat']
    omega
  rw [← hword]
  rfl

theorem wordsBytes_cons (n : ℕ) (words : List ℕ) :
    wordsBytes (n :: words) = wordBytes n ++ wordsBytes words := rfl

@[simp] theorem length_wordsBytes (words : List ℕ) :
    (wordsBytes words).length = 4 * words.length := by
  induction words with
  | nil => rfl
  | cons n words ih =>
      rw [wordsBytes_cons, List.length_append, ih, List.length_cons]
      show 4 + 4 * words.length = 4 * (words.length + 1)
      omega

/-- Reading back what was laid out. -/
theorem toWords_wordsBytes (words : List ℕ) :
    toWords (wordsBytes words) = words.map (· % 2 ^ 32) := by
  induction words with
  | nil => rfl
  | cons n words ih => rw [wordsBytes_cons, toWords_wordBytes_append, ih, List.map_cons]

/-- Laying out what was read. -/
theorem wordsBytes_toWords : ∀ {n : ℕ} {bytes : List UInt8}, bytes.length = 4 * n →
    wordsBytes (toWords bytes) = bytes ∧ (toWords bytes).length = n := by
  intro n
  induction n with
  | zero =>
      intro bytes h
      rw [List.length_eq_zero_iff.mp h]
      exact ⟨rfl, rfl⟩
  | succ n ih =>
      intro bytes h
      match bytes, h with
      | b₀ :: b₁ :: b₂ :: b₃ :: rest, h =>
          obtain ⟨hbytes, hlength⟩ := @ih rest (by simp only [List.length_cons] at h; omega)
          rw [toWords, wordsBytes_cons, wordBytes_bytesWord, hbytes, List.length_cons, hlength]
          exact ⟨rfl, rfl⟩
