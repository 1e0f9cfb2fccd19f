import TableScribe.Lexical.Match
import TableScribe.Lexical.Keyword

/-!
# Classes of characters

How the character classes of the patterns lie to each other: blanks are neither word characters nor
digits, and what stands for a letter of a key word is a word character, but neither a digit nor a
blank.

Both sets are small, so their code points are listed (`blankPoints`, `letterPoints`) and each of
them is looked up in the tables of the other classes.
-/

namespace TableScribe.Text

/-- Two flips are the ends of one range of the set. -/
theorem flipsContain_pair {first second point : Nat} {later : List Nat} :
    flipsContain (first :: second :: later) point = true ↔
      first ≤ point ∧ (point < second ∨ flipsContain later point = true) := by
  by_cases h1 : point < first
  · rw [flipsContain_of_lt _ h1]
    simp [Nat.not_le.2 h1]
  have h1' : first ≤ point := Nat.not_lt.1 h1
  rw [flipsContain_of_le _ h1']
  by_cases h2 : point < second
  · rw [flipsContain_of_lt _ h2]
    simp [h1', h2]
  · rw [flipsContain_of_le _ (Nat.not_lt.1 h2), Bool.not_not]
    simp [h1', h2]

/-! ## Blanks -/

/-- The white-space characters one by one. -/
def blankPoints : List Nat :=
  [0x9, 0xA, 0xB, 0xC, 0xD, 0x20, 0x85, 0xA0, 0x1680, 0x2000, 0x2001, 0x2002, 0x2003, 0x2004,
    0x2005, 0x2006, 0x2007, 0x2008, 0x2009, 0x200A, 0x2028, 0x2029, 0x202F, 0x205F, 0x3000]

theorem mem_blankPoints {c : Char} (h : isBlank c = true) : c.toNat ∈ blankPoints := by
  unfold isBlank blankFlips at h
  generalize c.toNat = point at h
  simp only [flipsContain_pair, flipsContain_nil, Bool.false_eq_true, or_false] at h
  simp only [blankPoints, List.mem_cons, List.not_mem_nil, or_false]
  omega

theorem blankPoints_free :
    ∀ point ∈ blankPoints, flipsContain wordFlips point = false ∧
      flipsContain digitFlips point = false := by
  decide +kernel

theorem not_isWord_of_isBlank {c : Char} (h : isBlank c = true) : isWord c = false :=
  (blankPoints_free _ (mem_blankPoints h)).1

theorem not_isDigit_of_isBlank {c : Char} (h : isBlank c = true) : isDigit c = false :=
  (blankPoints_free _ (mem_blankPoints h)).2

theorem isBlank_space : ∀ c ∈ [' '], isBlank c = true :=
  List.forall_mem_singleton.2 (by decide)

/-! ## Letters of key words -/

/-- The characters that key words are spelled with. -/
def isSpelling (c : Char) : Bool :=
  ('A' ≤ c && c ≤ 'Z') || c = '_'

theorem isSpelling_of_mem {word : Keyword} {c : Char} (h : c ∈ word.spelling.toList) :
    isSpelling c = true := by
  have hall : word.spelling.toList.all isSpelling = true := by cases word <;> decide
  exact List.all_eq_true.1 hall c h

/-- The letters of both cases, the underscore, the long s and the Kelvin sign. -/
def letterPoints : List Nat :=
  List.range' 0x41 26 ++ 0x5F :: (List.range' 0x61 26 ++ [0x17F, 0x212A])

theorem mem_letterPoints {c : Char} (h : isSpelling (foldLetter c) = true) :
    c.toNat ∈ letterPoints := by
  simp only [letterPoints, List.mem_append, List.mem_cons, List.mem_range'_1, List.not_mem_nil,
    or_false]
  unfold foldLetter at h
  split at h
  · rename_i hc
    have h1 : 'a'.toNat ≤ c.toNat := hc.1
    have h2 : c.toNat ≤ 'z'.toNat := hc.2
    have ha : 'a'.toNat = 0x61 := rfl
    have hz : 'z'.toNat = 0x7A := rfl
    omega
  split at h
  · rename_i hc
    have hs : 'ſ'.toNat = 0x17F := rfl
    rw [hc, hs]
    omega
  split at h
  · omega
  · unfold isSpelling at h
    simp only [Bool.or_eq_true, Bool.and_eq_true, decide_eq_true_eq] at h
    rcases h with ⟨h1, h2⟩ | rfl
    · have h1' : 'A'.toNat ≤ c.toNat := h1
      have h2' : c.toNat ≤ 'Z'.toNat := h2
      have ha : 'A'.toNat = 0x41 := rfl
      have hz : 'Z'.toNat = 0x5A := rfl
      omega
    · have hu : '_'.toNat = 0x5F := rfl
      rw [hu]
      omega

theorem letterPoints_classes :
    ∀ point ∈ letterPoints, flipsContain wordFlips point = true ∧
      flipsContain digitFlips point = false := by
  decide +kernel

theorem isWord_of_foldLetter {c : Char} (h : isSpelling (foldLetter c) = true) :
    isWord c = true :=
  (letterPoints_classes _ (mem_letterPoints h)).1

theorem not_isDigit_of_foldLetter {c : Char} (h : isSpelling (foldLetter c) = true) :
    isDigit c = false :=
  (letterPoints_classes _ (mem_letterPoints h)).2

end TableScribe.Text
