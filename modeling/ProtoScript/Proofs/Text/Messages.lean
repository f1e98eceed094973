import ProtoScript.Fault
import ProtoScript.Proofs.Numeral

/-!
# Messages that can be written

A template with one slot takes any snippet, as braces inside a snippet have no meaning. Most messages have
such a template as it stands. The name of an object becomes a part of the template, so two of the messages
can be written only if that name is free of braces.
-/

namespace ProtoScript

namespace Text

/-- Whether a character is no brace, and so stands for itself in a template. -/
def isPlain (c : Char) : Bool :=
  c ≠ '{' && c ≠ '}'

theorem isPlain_iff {c : Char} : isPlain c = true ↔ c ≠ '{' ∧ c ≠ '}' := by
  simp [isPlain]

/-- Whether a template has one slot, which is empty, and no other brace. -/
def hasOneSlot : List Char → Bool
  | [] => false
  | '{' :: '}' :: rest => rest.all isPlain
  | c :: rest => isPlain c && hasOneSlot rest

theorem hasOneSlot_append {front back : List Char} (hf : hasOneSlot front = true)
    (hb : back.all isPlain = true) : hasOneSlot (front ++ back) = true := by
  fun_induction hasOneSlot front with
  | case1 => cases hf
  | case2 rest => simp_all [hasOneSlot]
  | case3 c rest hslot ih =>
      obtain ⟨hc, hrest⟩ := Bool.and_eq_true_iff.mp hf
      have hopen : c ≠ '{' := (isPlain_iff.mp hc).1
      simp [hasOneSlot, hopen, hc, ih hrest]

theorem hasOneSlot_append_left {front back : List Char} (hf : front.all isPlain = true)
    (hb : hasOneSlot back = true) : hasOneSlot (front ++ back) = true := by
  induction front with
  | nil => exact hb
  | cons c rest ih =>
      obtain ⟨hc, hrest⟩ := Bool.and_eq_true_iff.mp (List.all_cons ▸ hf)
      have hopen : c ≠ '{' := (isPlain_iff.mp hc).1
      simp [hasOneSlot, hopen, hc, ih hrest]

section Slots
variable {snippets : List String} {numbering : Numbering} {c : Char} {text rest : List Char}

theorem fillSlots_cons (hc : isPlain c = true) :
    fillSlots snippets .plain numbering (c :: rest) =
      (c :: ·) <$> fillSlots snippets .plain numbering rest := by
  obtain ⟨hopen, hclose⟩ := isPlain_iff.mp hc
  rw [fillSlots]
  · rfl
  all_goals simp_all

theorem fillSlots_of_plain (h : text.all isPlain = true) :
    fillSlots snippets .plain numbering text = .ok text := by
  induction text with
  | nil => rw [fillSlots]
  | cons c rest ih =>
      obtain ⟨hc, hrest⟩ := Bool.and_eq_true_iff.mp (List.all_cons ▸ h)
      rw [fillSlots_cons hc, ih hrest]
      rfl

/-- The slot takes the snippet as it is. -/
theorem exists_fillSlots (snippet : String) (h : hasOneSlot text = true) :
    ∃ filled, fillSlots [snippet] .plain .undecided text = .ok filled := by
  fun_induction hasOneSlot text with
  | case1 => cases h
  | case2 rest =>
      refine ⟨snippet.toList ++ rest, ?_⟩
      have hslot : fillSlots [snippet] .plain .undecided ('{' :: '}' :: rest) =
          (snippet.toList ++ ·) <$> fillSlots [snippet] .plain (.automatic 1) rest := by
        rw [fillSlots, fillSlots, if_pos rfl]
        · rfl
        · simp
        · simp
      rw [hslot, fillSlots_of_plain h]
      rfl
  | case3 c rest _ ih =>
      obtain ⟨hc, hrest⟩ := Bool.and_eq_true_iff.mp h
      obtain ⟨filled, hfilled⟩ := ih hrest
      refine ⟨c :: filled, ?_⟩
      rw [fillSlots_cons hc, hfilled]
      rfl

end Slots

/-- Whether a text has no brace. -/
def plain (text : String) : Bool :=
  text.toList.all isPlain

/-- Whether a text is a template with one slot. -/
def oneSlot (template : String) : Bool :=
  hasOneSlot template.toList

theorem plain_append {a b : String} (ha : plain a = true) (hb : plain b = true) :
    plain (a ++ b) = true := by
  rw [plain, String.toList_append, List.all_append]
  exact Bool.and_eq_true_iff.mpr ⟨ha, hb⟩

theorem oneSlot_append {a b : String} (ha : oneSlot a = true) (hb : plain b = true) :
    oneSlot (a ++ b) = true := by
  rw [oneSlot, String.toList_append]
  exact hasOneSlot_append ha hb

theorem oneSlot_append_left {a b : String} (ha : plain a = true) (hb : oneSlot b = true) :
    oneSlot (a ++ b) = true := by
  rw [oneSlot, String.toList_append]
  exact hasOneSlot_append_left ha hb

theorem plain_intercalate {separator : String} (hs : plain separator = true) {texts : List String}
    (ht : ∀ text ∈ texts, plain text = true) : plain (separator.intercalate texts) = true := by
  rw [plain, String.toList_intercalate]
  induction texts with
  | nil => rfl
  | cons text rest ih =>
      obtain ⟨htext, hrest⟩ := List.forall_mem_cons.mp ht
      cases rest with
      | nil => simpa [plain] using htext
      | cons next rest =>
          simp only [plain, List.map_cons, List.intercalate_cons_cons, List.all_append] at hs htext ih ⊢
          rw [htext, hs, ih hrest]
          rfl

/-- Whatever the snippet is, a message with one slot for it can be written. -/
theorem Message.defect?_one {template : String} (snippet : String) (h : oneSlot template = true) :
    (one template snippet).defect? = none := by
  obtain ⟨filled, hfilled⟩ := exists_fillSlots snippet h
  have hfill : fill template [snippet] = .ok (String.ofList filled) := by
    rw [fill, hfilled]
    rfl
  rw [defect?, one, hfill]

end Text

open Text

theorem Kind.plain_name (kind : Kind) : plain kind.name = true := by
  cases kind <;> decide

theorem Numeral.plain_ofNat (n : Nat) : plain (ofNat n) = true := by
  rw [plain, ofNat, String.toList_ofList, List.all_eq_true]
  intro c hc
  refine forall_isDigit (P := fun c => isPlain c = true) ?_ ((digits_spec n).2.1 c hc)
  decide

namespace Cause

/-- The message has no brace but those of its slot. -/
def Legible : Cause → Prop
  | noProperty owner _ | noMethod owner _ => plain owner = true
  | _ => True

/-- A legible message can be written. -/
theorem defect?_message {cause : Cause} (h : cause.Legible) : cause.message.defect? = none := by
  cases cause with
  | strayReturn => decide
  | noProperty owner name | noMethod owner name =>
      exact Message.defect?_one name (oneSlot_append (by decide) h)
  | arity name expected given =>
      have hexpects := oneSlot_append (a := "'{}' expects ") (by decide) (Numeral.plain_ofNat expected)
      have hgot := oneSlot_append (b := " argument(s), got ") hexpects (by decide)
      exact Message.defect?_one name (oneSlot_append hgot (Numeral.plain_ofNat given))
  | wrongKind expected kind shown =>
      have hnames : plain (" or ".intercalate (expected.map Kind.name)) = true := by
        refine plain_intercalate (by decide) fun name hname => ?_
        obtain ⟨kind, -, rfl⟩ := List.mem_map.mp hname
        exact kind.plain_name
      have hexpected := plain_append (a := "expected ") (by decide) hnames
      have hgot := plain_append (plain_append (b := ", got ") hexpected (by decide)) kind.plain_name
      exact Message.defect?_one shown (oneSlot_append_left hgot (by decide))
  | incomparable left right operator =>
      have hleft := plain_append (a := "cannot compare ") (by decide) left.plain_name
      have hwith := plain_append (plain_append (b := " with ") hleft (by decide)) right.plain_name
      exact Message.defect?_one operator.symbol (oneSlot_append_left hwith (by decide))
  | inapplicable operator left right =>
      have hleft := oneSlot_append (a := "cannot apply '{}' to ") (by decide) left.plain_name
      have hand := oneSlot_append (b := " and ") hleft (by decide)
      exact Message.defect?_one operator.symbol (oneSlot_append hand right.plain_name)
  | alreadyDefined | undefined | undefinedFunction | notFunction | notMethod | divisionByZero
  | unknownOperator | notTarget | rangeKind | rangeOrder =>
      exact Message.defect?_one _ (by decide)

end Cause

/-- An error whose message can be written stays an error of the language. -/
theorem Fault.ofError_of_legible {e : EvalError} (h : e.cause.Legible) : Fault.ofError e = .error e := by
  rw [Fault.ofError, Cause.defect?_message h]

end ProtoScript
