/-!
# Blank characters

The white space that is trimmed from typed lines and from the end of a source.
-/

namespace ProtoScript.Text

/-- Whether `c` is white space: the Unicode separators of words and lines, and the ASCII controls
that separate fields or lines. -/
def isBlank (c : Char) : Bool :=
  let n := c.toNat
  (0x09 ≤ n && n ≤ 0x0D) || (0x1C ≤ n && n ≤ 0x20) || n == 0x85 || n == 0xA0 || n == 0x1680
    || (0x2000 ≤ n && n ≤ 0x200A) || n == 0x2028 || n == 0x2029 || n == 0x202F || n == 0x205F
    || n == 0x3000

/-- `chars` without the blanks at its end. -/
def dropBlankEnd (chars : List Char) : List Char :=
  (chars.reverse.dropWhile isBlank).reverse

/-- The text without the blanks at its end. -/
def trimEnd (text : String) : String :=
  String.ofList (dropBlankEnd text.toList)

/-- The text without the blanks at both ends. -/
def trim (text : String) : String :=
  String.ofList (dropBlankEnd (text.toList.dropWhile isBlank))

/-- What is cut off at the end is blank. -/
theorem dropBlankEnd_append_blank (chars : List Char) :
    ∃ blanks, chars = dropBlankEnd chars ++ blanks ∧ ∀ c ∈ blanks, isBlank c = true := by
  refine ⟨(chars.reverse.takeWhile isBlank).reverse, ?_, ?_⟩
  · rw [dropBlankEnd, ← List.reverse_append, List.takeWhile_append_dropWhile, List.reverse_reverse]
  · intro c hc
    exact List.all_eq_true.mp List.all_takeWhile c (List.mem_reverse.mp hc)

end ProtoScript.Text
