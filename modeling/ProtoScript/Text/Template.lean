import ProtoScript.Numeral
import ProtoScript.Text.Digit
import ProtoScript.Text.Style

/-!
# Message templates

A template is a text with slots. A pair of empty braces is a slot, and a doubled brace stands for one
brace. Slots are filled from left to right, one snippet each; or every slot holds the number of its
snippet. Snippets are taken as they are: braces inside them have no meaning.

Behind its number a slot may go on with a conversion, a format or a member, which are recognised and
not supported. A slot with a name finds no snippet.
-/

namespace ProtoScript.Text

/-- What is wrong with a template, or with the snippets for it. -/
inductive Defect
  /-- A brace opens at the end of the text. -/
  | loneOpen
  /-- A brace closes and none is open. -/
  | loneClose
  /-- A slot has no end. -/
  | openSlot
  /-- A brace opens inside a slot. -/
  | nestedSlot
  /-- A conversion mark ends the text. -/
  | noConversion
  /-- A conversion is followed by neither a format nor the end of the slot. -/
  | longConversion
  /-- A format has no end. -/
  | openFormat
  /-- A number in a slot is too large. -/
  | largeNumber
  /-- A numbered slot behind one without a number. -/
  | lateNumber
  /-- A slot without a number behind a numbered one. -/
  | missingNumber
  /-- A slot with a name. -/
  | named (name : String)
  /-- A slot without a snippet, by the number of the snippet. -/
  | unfilled (slot : Nat)
  /-- A slot with a conversion, a format or a member. -/
  | unsupported
  deriving DecidableEq, Repr

/-- How the slots of a template choose their snippets. -/
inductive Numbering
  | undecided
  /-- In order; `next` comes next. -/
  | automatic (next : Nat)
  /-- By the number in the slot. -/
  | explicit
  deriving DecidableEq, Repr

/-- What is being read: plain text or a part of a slot. The name of a slot is kept newest first. -/
inductive Mode
  | plain
  | name (read : List Char) (bracketed : Bool)
  /-- Behind a conversion mark. -/
  | conversion (name : List Char)
  /-- Behind the letter of a conversion. -/
  | converted (name : List Char)
  /-- In a format, inside `depth` braces. -/
  | format (name : List Char) (bare : Bool) (depth : Nat)
  deriving DecidableEq, Repr

/-- The largest number that a slot can hold. -/
def maxSlot : Nat :=
  9223372036854775807

/-- The part of a slot's name in front of its first member. -/
def slotHead (name : List Char) : List Char :=
  name.takeWhile fun c => c ≠ '.' && c ≠ '['

/-- The number of the snippet that a slot asks for, and how later slots choose theirs. -/
def chooseSlot (numbering : Numbering) (head : List Char) : Except Defect (Nat × Numbering) :=
  if head = [] then
    match numbering with
    | .undecided => .ok (0, .automatic 1)
    | .automatic next => .ok (next, .automatic (next + 1))
    | .explicit => .error .missingNumber
  else if head.all isAnyDigit then
    if maxSlot < Numeral.value (head.map plainDigit) then .error .largeNumber
    else
      match numbering with
      | .automatic _ => .error .lateNumber
      | _ => .ok (Numeral.value (head.map plainDigit), .explicit)
  else .error (.named (String.ofList head))

/-- The snippet for a slot, given its name and whether there is nothing but a name. -/
def chooseSnippet (snippets : List String) (numbering : Numbering) (name : List Char) (bare : Bool) :
    Except Defect (String × Numbering) := do
  let (slot, numbering) ← chooseSlot numbering (slotHead name)
  match snippets[slot]? with
  | none => throw (.unfilled slot)
  | some snippet =>
      if bare && slotHead name = name then return (snippet, numbering) else throw .unsupported

/-- Fills the slots of a template from left to right, up to the first defect. -/
def fillSlots (snippets : List String) :
    (mode : Mode) → (numbering : Numbering) → (template : List Char) → Except Defect (List Char)
  | .plain, _, [] => .ok []
  | .plain, numbering, '{' :: '{' :: rest =>
      return '{' :: (← fillSlots snippets .plain numbering rest)
  | .plain, numbering, '}' :: '}' :: rest =>
      return '}' :: (← fillSlots snippets .plain numbering rest)
  | .plain, _, ['{'] => .error .loneOpen
  | .plain, _, '}' :: _ => .error .loneClose
  | .plain, numbering, '{' :: rest => fillSlots snippets (.name [] false) numbering rest
  | .plain, numbering, c :: rest => return c :: (← fillSlots snippets .plain numbering rest)
  | .name .., _, [] => .error .openSlot
  | .name read true, numbering, c :: rest =>
      fillSlots snippets (.name (c :: read) (c ≠ ']')) numbering rest
  | .name read false, numbering, c :: rest =>
      if c = '}' then do
        let (snippet, numbering) ← chooseSnippet snippets numbering read.reverse true
        return snippet.toList ++ (← fillSlots snippets .plain numbering rest)
      else if c = '{' then .error .nestedSlot
      else if c = ':' then fillSlots snippets (.format read.reverse true 0) numbering rest
      else if c = '!' then fillSlots snippets (.conversion read.reverse) numbering rest
      else fillSlots snippets (.name (c :: read) (c = '[')) numbering rest
  | .conversion _, _, [] => .error .noConversion
  | .conversion name, numbering, _ :: rest => fillSlots snippets (.converted name) numbering rest
  | .converted _, _, [] => .error .openFormat
  | .converted name, numbering, c :: rest =>
      if c = '}' then do
        let (snippet, numbering) ← chooseSnippet snippets numbering name false
        return snippet.toList ++ (← fillSlots snippets .plain numbering rest)
      else if c = ':' then fillSlots snippets (.format name false 0) numbering rest
      else .error .longConversion
  | .format .., _, [] => .error .openFormat
  | .format name bare depth, numbering, c :: rest =>
      if c = '}' ∧ depth = 0 then do
        let (snippet, numbering) ← chooseSnippet snippets numbering name bare
        return snippet.toList ++ (← fillSlots snippets .plain numbering rest)
      else if c = '}' then fillSlots snippets (.format name false (depth - 1)) numbering rest
      else if c = '{' then fillSlots snippets (.format name false (depth + 1)) numbering rest
      else fillSlots snippets (.format name false depth) numbering rest

/-- The text of a template with its slots filled. -/
def fill (template : String) (snippets : List String) : Except Defect String :=
  (fillSlots snippets .plain .undecided template.toList).map String.ofList

/-- A message: a template and the snippets for its slots. -/
structure Message where
  template : String
  snippets : List String
  deriving DecidableEq, Repr, Inhabited

namespace Message

/-- A message with one slot. -/
def one (template snippet : String) : Message :=
  { template, snippets := [snippet] }

/-- The text of a message on a terminal, its snippets set in bold. -/
def render (style : Style) (m : Message) : Except Defect String :=
  fill m.template (m.snippets.map (style.paint [.bold]))

/-- What keeps a message from being written. -/
def defect? (m : Message) : Option Defect :=
  match fill m.template m.snippets with
  | .ok _ => none
  | .error defect => some defect

/-- The text of a message on a terminal; the bare template if it has a defect. -/
def text (style : Style) (m : Message) : String :=
  (m.render style).toOption.getD m.template

end Message

end ProtoScript.Text
