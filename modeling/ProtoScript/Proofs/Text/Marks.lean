import ProtoScript.Proofs.Text.Alphabet
import ProtoScript.Text.Style

/-!
# Marks on a text

A mark is a sequence that a terminal obeys and does not show: the escape character, a bracket, digits and
the letter m. A style is decorative if it adds marks to a text and changes nothing else; then a message is the
bare message with marks in it. If the bare text has no escape character, it is found again when all marks are
taken away.
-/

namespace ProtoScript.Text
open Alphabet

/-- What follows the mark at the start of a text, if there is one. -/
def afterMark? : List Char → Option (List Char)
  | c :: '[' :: d :: rest =>
      if c = escapeChar ∧ Token.isDigit d then
        match rest.dropWhile Token.isDigit with
        | 'm' :: after => some after
        | _ => none
      else none
  | _ => none

theorem length_afterMark? {text after : List Char} (h : afterMark? text = some after) :
    after.length < text.length := by
  unfold afterMark? at h
  split at h
  · next c d rest =>
      have hle : (rest.dropWhile Token.isDigit).length ≤ rest.length :=
        (List.dropWhile_suffix _).length_le
      split at h
      · split at h <;> cases h
        simp_all
        omega
      · cases h
  · cases h

/-- The characters of a text without its marks. -/
def unmarkedChars : List Char → List Char
  | [] => []
  | c :: rest =>
      match _h : afterMark? (c :: rest) with
      | some after => unmarkedChars after
      | none => c :: unmarkedChars rest
termination_by text => text.length
decreasing_by
  · exact length_afterMark? ‹_›
  · exact Nat.lt_succ_self _

/-- The text without its marks. -/
def unmarked (text : String) : String :=
  String.ofList (unmarkedChars text.toList)

/-- The second text is the first one with marks in it. -/
inductive Decorates : List Char → List Char → Prop
  | nil : Decorates [] []
  | cons (c : Char) {bare text : List Char} (h : Decorates bare text) : Decorates (c :: bare) (c :: text)
  | mark {digits bare text : List Char} (hne : digits ≠ []) (hd : ∀ d ∈ digits, Token.isDigit d = true)
      (h : Decorates bare text) : Decorates bare (escapeChar :: '[' :: (digits ++ 'm' :: text))

section Unmarked
variable {digits text bare : List Char}

theorem afterMark?_mark (text : List Char) (hne : digits ≠ []) (hd : ∀ d ∈ digits, Token.isDigit d = true) :
    afterMark? (escapeChar :: '[' :: (digits ++ 'm' :: text)) = some text := by
  obtain ⟨d, more, rfl⟩ := List.exists_cons_of_ne_nil hne
  obtain ⟨hfirst, hmore⟩ := List.forall_mem_cons.mp hd
  have hbehind : (more ++ 'm' :: text).dropWhile Token.isDigit = 'm' :: text := by
    rw [List.dropWhile_append_of_pos hmore]
    rfl
  simp [afterMark?, hfirst, hbehind]

theorem unmarkedChars_cons {c : Char} (hc : c ≠ escapeChar) :
    unmarkedChars (c :: text) = c :: unmarkedChars text := by
  have hnone : afterMark? (c :: text) = none := by
    unfold afterMark?
    split
    · next heq =>
        cases heq
        rw [if_neg fun h => hc h.1]
    · rfl
  rw [unmarkedChars]
  split
  · next hsome =>
      rw [hnone] at hsome
      cases hsome
  · rfl

theorem unmarkedChars_mark (hne : digits ≠ []) (hd : ∀ d ∈ digits, Token.isDigit d = true) :
    unmarkedChars (escapeChar :: '[' :: (digits ++ 'm' :: text)) = unmarkedChars text := by
  have hsome := afterMark?_mark text hne hd
  rw [unmarkedChars]
  split
  · next after hafter =>
      rw [hsome] at hafter
      cases hafter
      rfl
  · next hnone =>
      rw [hsome] at hnone
      cases hnone

/-- The marks on a text that has no escape character are all that is taken away. -/
theorem Decorates.unmarked (h : Decorates bare text) (hb : ∀ c ∈ bare, c ≠ escapeChar) :
    unmarkedChars text = bare := by
  induction h with
  | nil => rw [unmarkedChars]
  | cons c h ih =>
      obtain ⟨hc, hb⟩ := List.forall_mem_cons.mp hb
      rw [unmarkedChars_cons hc, ih hb]
  | mark hne hd h ih => rw [unmarkedChars_mark hne hd, ih hb]

end Unmarked

namespace Decorates
variable {bare text : List Char}

theorem refl (text : List Char) : Decorates text text := by
  induction text with
  | nil => exact .nil
  | cons c text ih => exact ih.cons c

theorem append {bare' text' : List Char} (h : Decorates bare text) (h' : Decorates bare' text') :
    Decorates (bare ++ bare') (text ++ text') := by
  induction h with
  | nil => exact h'
  | cons c _ ih => exact ih.cons c
  | mark hne hd _ ih =>
      rw [List.cons_append, List.cons_append, List.append_assoc, List.cons_append]
      exact .mark hne hd ih

end Decorates

/-- The second text is the first one with marks in it. -/
def Painted (bare text : String) : Prop :=
  Decorates bare.toList text.toList

namespace Painted
variable {a a' b b' : String}

theorem refl (text : String) : Painted text text :=
  Decorates.refl _

theorem append (h : Painted a b) (h' : Painted a' b') : Painted (a ++ a') (b ++ b') := by
  unfold Painted
  rw [String.toList_append, String.toList_append]
  exact Decorates.append h h'

theorem join {α : Type} {f g : α → String} {items : List α} (h : ∀ item ∈ items, Painted (f item) (g item)) :
    Painted (String.join (items.map f)) (String.join (items.map g)) := by
  induction items with
  | nil => exact .refl _
  | cons item items ih =>
      obtain ⟨hitem, hitems⟩ := List.forall_mem_cons.mp h
      rw [List.map_cons, List.map_cons, String.join_cons, String.join_cons]
      exact hitem.append (ih hitems)

/-- A painted text without its marks is the bare one. -/
theorem unmarked_eq (h : Painted a b) (ha : unescaped.Spells a) : unmarked b = a := by
  rw [unmarked, Decorates.unmarked h ha, String.ofList_toList]

end Painted

section Painting

theorem painted_sequence (mark : Mark) : Painted "" mark.sequence := by
  have hne : mark.code.toList ≠ [] := by cases mark <;> decide
  have hdigits : mark.code.toList.all Token.isDigit = true := by cases mark <;> decide
  have hsequence : mark.sequence.toList = escapeChar :: '[' :: (mark.code.toList ++ 'm' :: []) := by
    cases mark <;> rfl
  rw [Painted, hsequence]
  exact .mark hne (List.all_eq_true.mp hdigits) .nil

theorem painted_resetSequence : Painted "" resetSequence := by
  have hsequence : resetSequence.toList = escapeChar :: '[' :: (['0'] ++ 'm' :: []) := rfl
  rw [Painted, hsequence]
  exact .mark (by simp) (List.all_eq_true.mp rfl) .nil

/-- The style puts marks into a text, and changes nothing else. -/
def Style.Decorative (style : Style) : Prop :=
  ∀ marks text, Painted text (style.paint marks text)

theorem decorative_plain : Style.plain.Decorative :=
  fun _ text => .refl text

theorem decorative_ansi : Style.ansi.Decorative := by
  intro marks text
  have hfront : Painted "" (String.join (marks.map Mark.sequence)) := by
    induction marks with
    | nil => exact .refl ""
    | cons mark marks ih =>
        rw [List.map_cons, String.join_cons]
        exact (painted_sequence mark).append ih
  have hpaint := (hfront.append (.refl text)).append painted_resetSequence
  rwa [String.empty_append, String.append_empty] at hpaint

theorem Style.Decorative.onlyIf {style : Style} (h : style.Decorative) (allowed : Bool) :
    (style.onlyIf allowed).Decorative := by
  cases allowed with
  | true => exact h
  | false => exact decorative_plain

end Painting

section Messages
variable (m : Message)

/-- A message on a terminal is the bare message with marks in it. -/
theorem painted_text {style : Style} (h : style.Decorative) : Painted (m.text .plain) (m.text style) := by
  -- The two templates are the same; only the snippets differ, so any characters may stand around them.
  have hpieces : Piecewise (fun _ => True) Decorates :=
    ⟨.nil, fun {c} _ _ _ h => h.cons c, fun ha hb => ha.append hb⟩
  have hsnippets : List.Forall₂ (fun s s' : String => Decorates s.toList s'.toList)
      (m.snippets.map (Style.plain.paint [.bold])) (m.snippets.map (style.paint [.bold])) := by
    rw [List.forall₂_map_left_iff, List.forall₂_map_right_iff, List.forall₂_same]
    exact fun snippet _ => h [.bold] snippet
  have htemplate : ∀ c ∈ m.template.toList, True := fun _ _ => trivial
  have hslots := matched_fillSlots hpieces hsnippets .plain (by simp [Mode.read]) .undecided htemplate
  unfold Message.text Message.render fill
  generalize fillSlots (m.snippets.map (Style.plain.paint [.bold])) .plain .undecided m.template.toList =
    bare at hslots
  generalize fillSlots (m.snippets.map (style.paint [.bold])) .plain .undecided m.template.toList =
    filled at hslots
  cases hslots with
  | ok h => simpa [Painted, Except.map, Except.toOption] using h
  | error _ => exact .refl _

end Messages

end ProtoScript.Text
