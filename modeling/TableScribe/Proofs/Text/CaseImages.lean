import TableScribe.Text.LetterCase

/-!
# The images of a letter

A mapping of letter case takes a character to a code point that its tables give, or leaves it alone
(`mapCase_eq`). So it leads to no character that the tables avoid (`eq_of_mem_mapCase`).
-/

namespace TableScribe.Text

variable {shifts : List Shift} {sequences : List (Nat × List Nat)}

/-- The three ways in which a mapping treats a character. -/
theorem mapCase_eq (shifts : List Shift) (sequences : List (Nat × List Nat)) (c : Char) :
    (∃ s ∈ shifts, s.covers c.toNat = true ∧
      mapCase shifts sequences c = [Char.ofNat (c.toNat + s.distance).toNat]) ∨
    (∃ points, (c.toNat, points) ∈ sequences ∧
      mapCase shifts sequences c = points.map Char.ofNat) ∨
    shifts.find? (·.covers c.toNat) = none ∧ mapCase shifts sequences c = [c] := by
  unfold mapCase
  split
  · rename_i s hfind
    have hcovers := List.find?_some hfind
    exact .inl ⟨s, List.mem_of_find?_eq_some hfind, hcovers, rfl⟩
  · rename_i hnone
    split
    · rename_i points hlookup
      obtain ⟨front, back, heq, -⟩ := List.lookup_eq_some_iff.1 hlookup
      have hmem : (c.toNat, points) ∈ sequences := by
        rw [heq]
        exact List.mem_append_right _ List.mem_cons_self
      exact .inr (.inl ⟨points, hmem, rfl⟩)
    · exact .inr (.inr ⟨hnone, rfl⟩)

/-- The tables lead to none of the characters, and not to the character that stands for a code point
that is none. -/
structure Avoids (marks : List Char) (shifts : List Shift) (sequences : List (Nat × List Nat)) :
    Prop where
  shifts : ∀ s ∈ shifts, ∀ code ∈ marks.map Char.toNat,
    s.last + s.distance < code ∨ code < s.first + s.distance
  sequences : ∀ pair ∈ sequences, ∀ point ∈ pair.2, point ∉ marks.map Char.toNat
  invalid : '\x00' ∉ marks

instance (marks : List Char) (shifts : List Shift) (sequences : List (Nat × List Nat)) :
    Decidable (Avoids marks shifts sequences) :=
  decidable_of_iff (_ ∧ _ ∧ _)
    ⟨fun ⟨hshifts, hsequences, hinvalid⟩ => ⟨hshifts, hsequences, hinvalid⟩,
      fun ⟨hshifts, hsequences, hinvalid⟩ => ⟨hshifts, hsequences, hinvalid⟩⟩

/-- A code point is that of its character, unless it is none. -/
theorem toNat_ofNat_cases (point : Nat) :
    (Char.ofNat point).toNat = point ∨ (Char.ofNat point).toNat = 0 := by
  by_cases hvalid : point.isValidChar
  · rw [Char.ofNat, dif_pos hvalid]
    exact .inl rfl
  · rw [Char.ofNat, dif_neg hvalid]
    exact .inr rfl

theorem eq_of_ofNat_toNat {point : Nat} {mark : Char} (hpos : mark.toNat ≠ 0)
    (h : Char.ofNat point = mark) : point = mark.toNat := by
  subst h
  exact ((toNat_ofNat_cases point).resolve_right hpos).symm

/-- A character that the tables avoid is the image of itself only. -/
theorem eq_of_mem_mapCase {marks : List Char} (h : Avoids marks shifts sequences) {c mark : Char}
    (hmark : mark ∈ marks) (hmem : mark ∈ mapCase shifts sequences c) : mark = c := by
  have hzero : mark ≠ '\x00' := ne_of_mem_of_not_mem hmark h.invalid
  have hpos : mark.toNat ≠ 0 := fun heq => hzero (by rw [← Char.ofNat_toNat mark, heq])
  rcases mapCase_eq shifts sequences c with
    ⟨s, hs, hcovers, heq⟩ | ⟨points, hpoints, heq⟩ | ⟨-, heq⟩
  · rw [heq, List.mem_singleton] at hmem
    have hpoint := eq_of_ofNat_toNat hpos hmem.symm
    simp only [Shift.covers, Bool.and_eq_true, decide_eq_true_eq] at hcovers
    rcases h.shifts s hs mark.toNat (List.mem_map_of_mem hmark) with hbelow | habove <;> omega
  · rw [heq] at hmem
    obtain ⟨point, hpoint, himage⟩ := List.mem_map.1 hmem
    rw [eq_of_ofNat_toNat hpos himage] at hpoint
    exact absurd (List.mem_map_of_mem hmark) (h.sequences _ hpoints _ hpoint)
  · rwa [heq, List.mem_singleton] at hmem

end TableScribe.Text
