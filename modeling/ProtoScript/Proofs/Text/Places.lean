import ProtoScript.Proofs.Text.Lines

/-!
# Places and the lines of a text

A text is split into lines at its line ends, and joined lines give the text back. The place of an offset
says on which of these lines the offset lies and how far behind its start, so that the offset can be
computed from the place, and the place is the only one from which it comes out.
-/

namespace ProtoScript.Text

/-- The offset at which a line starts: all lines above it, each with its line end. -/
def lineStart (lines : List (List Char)) (index : Nat) : Nat :=
  (lines.take index).flatten.length + index

@[simp] theorem lineStart_zero (lines : List (List Char)) : lineStart lines 0 = 0 := by
  simp [lineStart]

theorem lineStart_cons_succ (line : List Char) (lines : List (List Char)) (index : Nat) :
    lineStart (line :: lines) (index + 1) = line.length + 1 + lineStart lines index := by
  simp only [lineStart, List.take_succ_cons, List.flatten_cons, List.length_append]
  omega

theorem lineStart_append (lines more : List (List Char)) :
    lineStart (lines ++ more) lines.length = lineStart lines lines.length := by
  simp [lineStart]

/-- A line ends in front of the start of every later one. -/
theorem lineStart_add_lt {lines : List (List Char)} {line : List Char} {index later : Nat}
    (hline : lines[index]? = some line) (hlater : index < later) :
    lineStart lines index + line.length < lineStart lines later := by
  induction lines generalizing index later with
  | nil => simp at hline
  | cons first lines ih =>
      obtain ⟨later, rfl⟩ := Nat.exists_eq_add_one_of_ne_zero (Nat.ne_zero_of_lt hlater)
      rw [lineStart_cons_succ]
      cases index with
      | zero =>
          cases hline
          rw [lineStart_zero]
          omega
      | succ index =>
          have hrest := ih hline (Nat.lt_of_succ_lt_succ hlater)
          rw [lineStart_cons_succ]
          omega

section Split

/-- A text has one line more than line ends. -/
theorem length_splitOn (text : List Char) : (text.splitOn '\n').length = text.count '\n' + 1 := by
  induction text with
  | nil => rfl
  | cons c text ih =>
      rw [List.splitOn_cons_eq_if_modifyHead]
      by_cases hc : c = '\n' <;> simp [hc, ih]

/-- A line behind the last one would start one line end behind the text. -/
theorem lineStart_splitOn (text : List Char) :
    lineStart (text.splitOn '\n') (text.splitOn '\n').length = text.length + 1 := by
  have hjoined : (['\n'].intercalate (text.splitOn '\n')).length = text.length := by
    rw [List.intercalate_splitOn]
  generalize htext : text.splitOn '\n' = lines at hjoined ⊢
  have hlines : lines ≠ [] := htext ▸ List.splitOn_ne_nil '\n' text
  rw [← hjoined]
  clear hjoined htext
  induction lines with
  | nil => exact absurd rfl hlines
  | cons line lines ih =>
      rw [List.length_cons, lineStart_cons_succ]
      cases lines with
      | nil => simp
      | cons next lines =>
          rw [ih (List.cons_ne_nil _ _), List.intercalate_cons_cons]
          simp
          omega

/-- The lines of a text around one of its lines. -/
theorem splitOn_isLine {text above line below : List Char} (h : IsLine text above line below) :
    ∃ upper lower, text.splitOn '\n' = upper ++ line :: lower ∧ upper.length = above.count '\n' ∧
      lineStart upper upper.length = above.length := by
  have hlower : ∃ lower, (line ++ below).splitOn '\n' = line :: lower := by
    rcases h.stop with rfl | hbelow
    · exact ⟨[], by rw [List.append_nil, List.splitOn_eq_singleton h.single]⟩
    · obtain ⟨rest, rfl⟩ := List.head?_eq_some_iff.mp hbelow
      exact ⟨_, List.splitOn_append_cons_self_of_not_mem h.single rest⟩
  obtain ⟨lower, hlower⟩ := hlower
  rcases h.start with rfl | habove
  · exact ⟨[], lower, by rw [h.split, List.nil_append, hlower, List.nil_append], rfl, rfl⟩
  · obtain ⟨front, rfl⟩ := List.getLast?_eq_some_iff.mp habove
    refine ⟨front.splitOn '\n', lower, ?_, ?_, ?_⟩
    · rw [h.split, List.append_assoc, List.singleton_append, List.splitOn_append_cons_self, hlower]
    · rw [length_splitOn, List.count_append, List.count_singleton_self]
    · rw [lineStart_splitOn, List.length_append, List.length_singleton]

end Split

/-- The place is the one of an offset: its line is the line of the text with its index, and the lines above
that one, a line end for each of them and the column make up the offset. -/
structure Place.IsAt (place : Place) (source : List Char) (offset : Nat) : Prop where
  single : '\n' ∉ place.line
  line : (source.splitOn '\n')[place.index]? = some place.line
  column : place.column ≤ place.line.length
  total : ((source.splitOn '\n').take place.index).flatten.length + place.index + place.column = offset

/-- An offset in a text lies on one of its lines, and its place says where. -/
theorem placeAt_isAt (source : List Char) {offset : Nat} (h : offset ≤ source.length) :
    (placeAt source offset).IsAt source offset := by
  obtain ⟨above, front, back, below, hbefore, -, hline, hplace⟩ :=
    exists_line_around (source.take offset) (source.drop offset) List.not_mem_nil
  rw [List.nil_append, List.take_append_drop] at hline hplace
  rw [List.length_take_of_le h] at hplace
  -- The line around the offset is one of the pieces, and the pieces above it end where it starts.
  obtain ⟨upper, lower, hsplit, hcount, hstart⟩ := splitOn_isLine hline
  have hlength := congrArg List.length hbefore
  rw [List.length_take_of_le h, List.length_append] at hlength
  rw [hplace]
  refine ⟨hline.single, ?_, by simp, ?_⟩
  · rw [hsplit, ← hcount]
    simp
  · change lineStart (source.splitOn '\n') (above.count '\n') + front.length = offset
    rw [hsplit, ← hcount, lineStart_append, hstart, hlength]

/-- No two places are at one offset. -/
theorem Place.IsAt.unique {place other : Place} {source : List Char} {offset : Nat}
    (h : place.IsAt source offset) (h' : other.IsAt source offset) : place = other := by
  have htotal : lineStart (source.splitOn '\n') place.index + place.column = offset := h.total
  have htotal' : lineStart (source.splitOn '\n') other.index + other.column = offset := h'.total
  have hcolumn := h.column
  have hcolumn' := h'.column
  rcases Nat.lt_trichotomy place.index other.index with hlt | heq | hlt
  · have := lineStart_add_lt h.line hlt
    omega
  · have hline := h.line.symm.trans (heq ▸ h'.line)
    obtain ⟨line, index, column⟩ := place
    obtain ⟨line', index', column'⟩ := other
    simp only at heq htotal htotal' hline
    subst heq
    cases hline
    congr
    omega
  · have := lineStart_add_lt h'.line hlt
    omega

/-- Finding a place is the inverse of joining lines: an offset of the text has exactly the place from which
it comes out, and an offset outside of the text has the place of the nearer end. -/
theorem places_invert_joining (source : List Char) :
    (∀ offset : Nat, offset ≤ source.length →
      ∀ place, placeAt source offset = place ↔ place.IsAt source offset) ∧
    (∀ offset : Int, offset < 0 → placeAt source offset = placeAt source 0) ∧
    (∀ offset : Int, (source.length : Int) < offset →
      placeAt source offset = placeAt source (source.length : Int)) := by
  refine ⟨fun offset hoffset place => ⟨?_, ?_⟩, fun offset hoffset => ?_, fun offset hoffset => ?_⟩
  · rintro rfl
    exact placeAt_isAt source hoffset
  · exact (placeAt_isAt source hoffset).unique
  · have hclamp : clampOffset source offset = clampOffset source 0 := by
      rw [clampOffset, clampOffset, Int.toNat_of_nonpos (Int.le_of_lt hoffset), Int.toNat_zero]
    rw [placeAt, placeAt, hclamp]
  · have hclamp : clampOffset source offset = clampOffset source (source.length : Int) := by
      rw [clampOffset, clampOffset, Int.toNat_natCast]
      omega
    rw [placeAt, placeAt, hclamp]

end ProtoScript.Text
