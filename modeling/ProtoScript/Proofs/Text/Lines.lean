import ProtoScript.Text.Lines

/-!
# Places in lines

A text of whole lines, each with its line end. Every character of it lies on one of the lines, and the place
of its offset names that line, the lines above it and the characters in front of it.
-/

namespace ProtoScript.Text

/-- The text of several lines, each with a line end behind it. -/
def ofLines (lines : List (List Char)) : List Char :=
  lines.flatMap (· ++ ['\n'])

@[simp] theorem ofLines_nil : ofLines [] = [] :=
  rfl

@[simp] theorem ofLines_cons (line : List Char) (lines : List (List Char)) :
    ofLines (line :: lines) = line ++ '\n' :: ofLines lines := by
  simp [ofLines]

@[simp] theorem ofLines_append (lines more : List (List Char)) :
    ofLines (lines ++ more) = ofLines lines ++ ofLines more :=
  List.flatMap_append

/-- Behind lines there is the start of a text or a line end. -/
theorem takeWhile_ofLines_reverse (lines : List (List Char)) :
    (ofLines lines).reverse.takeWhile (· ≠ '\n') = [] := by
  rcases List.eq_nil_or_concat lines with rfl | ⟨front, last, rfl⟩
  · rfl
  · simp

theorem count_ofLines {lines : List (List Char)} (h : ∀ line ∈ lines, '\n' ∉ line) :
    (ofLines lines).count '\n' = lines.length := by
  induction lines with
  | nil => rfl
  | cons line lines ih =>
      obtain ⟨hline, hlines⟩ := List.forall_mem_cons.mp h
      rw [ofLines_cons, List.count_append, List.count_cons_self, List.count_eq_zero.mpr hline, ih hlines,
        List.length_cons, Nat.zero_add]

/-- Every character of a text of lines lies on one of them, or is the end of one. -/
theorem exists_line {lines : List (List Char)} {offset : Nat} (h : offset < (ofLines lines).length) :
    ∃ above here below column, lines = above ++ here :: below ∧ column ≤ here.length ∧
      offset = (ofLines above).length + column := by
  induction lines generalizing offset with
  | nil => cases h
  | cons line lines ih =>
      rcases Nat.lt_or_ge line.length offset with hbehind | hon
      · have hrest : offset - (line.length + 1) < (ofLines lines).length := by
          simp only [ofLines_cons, List.length_append, List.length_cons] at h
          omega
        obtain ⟨above, here, below, column, rfl, hcolumn, hoffset⟩ := ih hrest
        refine ⟨line :: above, here, below, column, rfl, hcolumn, ?_⟩
        simp only [ofLines_cons, List.length_append, List.length_cons]
        omega
      · exact ⟨[], line, lines, offset, rfl, hon, by simp⟩

/-- Lines without line ends of their own are told apart by the ends behind them. -/
theorem placeAt_ofLines {above : List (List Char)} {here rest : List Char} {column : Nat}
    (habove : ∀ line ∈ above, '\n' ∉ line) (hhere : '\n' ∉ here) (hcolumn : column ≤ here.length) :
    placeAt (ofLines above ++ (here ++ '\n' :: rest)) ((ofLines above).length + column : Nat) =
      { line := here, index := above.length, column } := by
  have hclamp : clampOffset (ofLines above ++ (here ++ '\n' :: rest))
      ((ofLines above).length + column : Nat) = (ofLines above).length + column := by
    simp only [clampOffset, Int.toNat_natCast, List.length_append, List.length_cons]
    omega
  have hbefore : (ofLines above ++ (here ++ '\n' :: rest)).take ((ofLines above).length + column) =
      ofLines above ++ here.take column := by
    rw [List.take_length_add_append, List.take_append_of_le_length hcolumn]
  have hafter : (ofLines above ++ (here ++ '\n' :: rest)).drop ((ofLines above).length + column) =
      here.drop column ++ '\n' :: rest := by
    rw [List.drop_length_add_append, List.drop_append_of_le_length hcolumn]
  have hno {part : List Char} (hpart : ∀ c ∈ part, c ∈ here) : ∀ c ∈ part, decide (c ≠ '\n') = true :=
    fun c hc => decide_eq_true fun h => hhere (h ▸ hpart c hc)
  have hhead : ((ofLines above ++ here.take column).reverse.takeWhile (· ≠ '\n')).reverse =
      here.take column := by
    rw [List.reverse_append, List.takeWhile_append_of_pos, takeWhile_ofLines_reverse, List.append_nil,
      List.reverse_reverse]
    exact hno fun c hc => List.mem_of_mem_take (List.mem_reverse.mp hc)
  have htail : (here.drop column ++ '\n' :: rest).takeWhile (· ≠ '\n') = here.drop column := by
    rw [List.takeWhile_append_of_pos (hno fun c hc => List.mem_of_mem_drop hc)]
    simp
  have hcount : (ofLines above ++ here.take column).count '\n' = above.length := by
    have hhere' : (here.take column).count '\n' = 0 :=
      List.count_eq_zero.mpr fun hc => hhere (List.mem_of_mem_take hc)
    rw [List.count_append, hhere', count_ofLines habove, Nat.add_zero]
  simp only [placeAt, hclamp, hbefore, hafter, hhead, htail, hcount]
  simp [hcolumn]

/-- `line` is a line of the text, between `above` and `below`. -/
structure IsLine (text above line below : List Char) : Prop where
  split : text = above ++ (line ++ below)
  start : above = [] ∨ above.getLast? = some '\n'
  stop : below = [] ∨ below.head? = some '\n'
  single : '\n' ∉ line

theorem not_mem_takeWhile (text : List Char) : '\n' ∉ text.takeWhile (· ≠ '\n') := by
  intro h
  simpa using List.all_eq_true.mp List.all_takeWhile _ h

theorem dropWhile_line (text : List Char) :
    text.dropWhile (· ≠ '\n') = [] ∨ (text.dropWhile (· ≠ '\n')).head? = some '\n' := by
  induction text with
  | nil => exact .inl rfl
  | cons c rest ih =>
      by_cases hc : c = '\n'
      · exact .inr (by simp [hc])
      · simpa [hc] using ih

/-- A piece of text without line ends lies on one line, which its place names. -/
theorem exists_line_around (before : List Char) {piece : List Char} (behind : List Char)
    (hp : '\n' ∉ piece) :
    ∃ above front back below, before = above ++ front ∧ behind = back ++ below ∧
      IsLine (before ++ (piece ++ behind)) above (front ++ (piece ++ back)) below ∧
      placeAt (before ++ (piece ++ behind)) before.length =
        { line := front ++ (piece ++ back), index := above.count '\n', column := front.length } := by
  have hbefore : before = (before.reverse.dropWhile (· ≠ '\n')).reverse ++
      (before.reverse.takeWhile (· ≠ '\n')).reverse := by
    rw [← List.reverse_append, List.takeWhile_append_dropWhile, List.reverse_reverse]
  have hfront : '\n' ∉ (before.reverse.takeWhile (· ≠ '\n')).reverse :=
    fun h => not_mem_takeWhile _ (List.mem_reverse.mp h)
  have hpiece : ∀ c ∈ piece, decide (c ≠ '\n') = true :=
    fun c hc => decide_eq_true fun h => hp (h ▸ hc)
  refine ⟨_, _, _, _, hbefore, List.takeWhile_append_dropWhile.symm, ⟨?_, ?_, dropWhile_line behind, ?_⟩, ?_⟩
  · refine (congrArg (· ++ (piece ++ behind)) hbefore).trans ?_
    simp only [List.append_assoc, List.takeWhile_append_dropWhile]
  · refine (dropWhile_line before.reverse).imp (fun h => by rw [h]; rfl) fun h => ?_
    rwa [List.getLast?_reverse]
  · simp only [List.mem_append, not_or]
    exact ⟨hfront, hp, not_mem_takeWhile behind⟩
  · have hcount := congrArg (List.count '\n') hbefore
    rw [List.count_append, List.count_eq_zero.mpr hfront, Nat.add_zero] at hcount
    have hclamp : clampOffset (before ++ (piece ++ behind)) before.length = before.length := by
      simp [clampOffset]
    simp only [placeAt, hclamp, List.take_left, List.drop_left, List.takeWhile_append_of_pos hpiece, hcount]

end ProtoScript.Text
