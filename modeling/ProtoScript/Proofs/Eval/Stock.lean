import ProtoScript.Proofs.Eval.Moves
import ProtoScript.Proofs.Text.Alphabet
import ProtoScript.Proofs.Tree.Parts
import ProtoScript.Proofs.Value.Faults
import ProtoScript.Proofs.Value.Recursion

/-!
# What a run is made of

Evaluation invents neither pieces of program nor characters. Whatever comes up in a run is taken from a
stock: nodes, with all their parts, and an alphabet in which the words of these nodes are spelled. A value is
made of the stock if its texts, its functions and the names of its objects are; then so is what is shown of
it, in a heap of such values.
-/

namespace ProtoScript
open ProtoScript.Text ProtoScript.Text.Alphabet

section Results
variable {ε α β : Type} {P : α → Prop} {Q : β → Prop}

/-- Whatever a result gives has the property. -/
def GivesOnly (P : α → Prop) (result : Except ε α) : Prop :=
  ∀ a, result = .ok a → P a

namespace GivesOnly

theorem ok {a : α} (h : P a) : GivesOnly P (.ok a : Except ε α) := by
  rintro _ ⟨⟩
  exact h

theorem error (e : ε) : GivesOnly P (.error e) := by
  intro a h
  cases h

theorem bind {x : Except ε α} {k : α → Except ε β} (hx : GivesOnly P x)
    (hk : ∀ a, P a → GivesOnly Q (k a)) : GivesOnly Q (x >>= k) := by
  cases x with
  | ok a => exact hk a (hx a rfl)
  | error e => exact .error e

theorem mapM {step : α → Except ε β} {items : List α} (h : ∀ a ∈ items, GivesOnly Q (step a)) :
    GivesOnly (fun results => ∀ b ∈ results, Q b) (items.mapM step) := by
  induction items with
  | nil => exact .ok (by simp)
  | cons item rest ih =>
      obtain ⟨hitem, hrest⟩ := List.forall_mem_cons.mp h
      rw [List.mapM_cons]
      exact hitem.bind fun b hb => (ih hrest).bind fun bs hbs => .ok (List.forall_mem_cons.mpr ⟨hb, hbs⟩)

end GivesOnly

end Results

section Messages

/-- The texts that a cause carries. -/
def Cause.words : Cause → List String
  | .alreadyDefined name | .undefined name | .undefinedFunction name | .notFunction name | .notMethod name
  | .arity name _ _ => [name]
  | .noProperty owner name | .noMethod owner name => [owner, name]
  | .wrongKind _ _ shown | .divisionByZero shown | .rangeKind shown | .rangeOrder shown => [shown]
  | .incomparable _ _ operator | .inapplicable operator _ _ | .unknownOperator operator => [operator.symbol]
  | .notTarget form => [form]
  | .strayReturn => []

variable {A : Alphabet}

theorem spells_kind (kind : Kind) : A.Spells kind.name := by
  cases kind <;> exact spells_word (by decide)

/-- A message adds words of the interpreter to the texts of its cause. -/
theorem Cause.spellsMessage {cause : Cause} (h : ∀ word ∈ cause.words, A.Spells word) :
    A.SpellsMessage cause.message := by
  cases cause with
  | noProperty owner name | noMethod owner name =>
      obtain ⟨howner, hname⟩ := List.forall_mem_cons.mp h
      exact spellsMessage_one ((spells_word (by decide)).append howner) (hname name List.mem_cons_self)
  | arity name expected given =>
      refine spellsMessage_one ?_ (h name List.mem_cons_self)
      exact ((spells_ofNat _).framed (by decide) (by decide)).append (spells_ofNat _)
  | wrongKind expected kind shown =>
      have hnames : A.Spells (" or ".intercalate (expected.map Kind.name)) := by
        refine Spells.intercalate (spells_word (by decide)) ?_
        simpa using fun kind _ => spells_kind kind
      refine spellsMessage_one ?_ (h shown List.mem_cons_self)
      exact ((hnames.framed (by decide) (by decide)).append
        (spells_kind kind)).append (spells_word (by decide))
  | incomparable left right operator =>
      refine spellsMessage_one ?_ (h operator.symbol List.mem_cons_self)
      exact (((spells_kind left).framed (by decide) (by decide)).append
        (spells_kind right)).append (spells_word (by decide))
  | inapplicable operator left right =>
      refine spellsMessage_one ?_ (h operator.symbol List.mem_cons_self)
      exact ((spells_kind left).framed (by decide) (by decide)).append (spells_kind right)
  | strayReturn => exact spellsMessage_one (spells_word (by decide)) spells_empty
  | alreadyDefined | undefined | undefinedFunction | notFunction | notMethod | divisionByZero
  | unknownOperator | notTarget | rangeKind | rangeOrder =>
      exact spellsMessage_one (spells_word (by decide)) (h _ List.mem_cons_self)

end Messages

/-- What a run is made of: nodes with all their parts, and an alphabet that has their words. -/
structure Stock extends Alphabet where
  node : Node → Prop
  part {whole part : Node} (h : node whole) (hp : part ∈ whole.parts) : node part
  word {n : Node} (h : node n) {word : String} (hw : word ∈ n.words) : toAlphabet.Spells word

namespace Stock
variable {S : Stock} {h : Heap} {v : Value}

/-- All nodes and all characters. -/
def full : Stock where
  toAlphabet := .full
  node _ := True
  part _ _ := trivial
  word _ _ _ := fun _ _ => trivial

/-- What a value that is no list must be. -/
def Leaf (S : Stock) : Value → Prop
  | .character text | .string text => S.Spells text
  | .function f => S.Spells f.name ∧ ∀ d scope, f.body = .closure d scope → S.node (.stmt (.define d))
  | .object o => ∀ name ∈ o.name, S.Spells name
  | _ => True

/-- The value is made of the stock. -/
def Holds (S : Stock) (value : Value) : Prop :=
  value.All S.Leaf

theorem holds_list {items : List Value} : S.Holds (.list items) ↔ ∀ item ∈ items, S.Holds item :=
  Value.all_list

theorem holds_leaf (hleaf : v.leaves = [v]) : S.Holds v ↔ S.Leaf v :=
  Value.all_self hleaf

theorem holds_object {o : Object} : S.Holds (.object o) ↔ ∀ name ∈ o.name, S.Spells name :=
  holds_leaf rfl

theorem holds_closure {ident : Nat} {name : String} {d : Definition} {scope : FrameId} :
    S.Holds (.function { ident, name, body := .closure d scope }) ↔
      S.Spells name ∧ S.node (.stmt (.define d)) := by
  rw [holds_leaf rfl]
  simp [Leaf]

/-- The bindings of the heap are made of the stock. -/
def Supplies (S : Stock) (h : Heap) : Prop :=
  ∀ f, ∀ entry ∈ (h.bindings f).entries, S.Spells entry.1 ∧ S.Holds entry.2

theorem Supplies.bind (hs : S.Supplies h) {name : String} (hn : S.Spells name) (hv : S.Holds v)
    (frame : FrameId) : S.Supplies (h.bind frame name v) := by
  intro f entry he
  rcases Heap.mem_bindings_bind he with rfl | he
  · exact ⟨hn, hv⟩
  · exact hs f entry he

theorem Supplies.allocate (hs : S.Supplies h) (parent : Option FrameId) :
    S.Supplies (h.allocate parent).2 := by
  intro f entry he
  rw [Heap.bindings_allocate] at he
  exact hs f entry he

theorem Supplies.own (hs : S.Supplies h) {f : FrameId} {name : String} (hv : h.own? f name = some v) :
    S.Holds v :=
  (hs f _ (Table.mem_of_get? hv)).2

theorem Supplies.resolve (hs : S.Supplies h) {f : FrameId} {name : String}
    (hv : h.resolve f name = some v) : S.Holds v := by
  obtain ⟨g, -, hg⟩ := List.exists_of_findSome?_eq_some hv
  exact hs.own hg

theorem Supplies.lookup (hs : S.Supplies h) {o : Object} {name : String}
    (hv : h.lookup o name = some v) : S.Holds v := by
  unfold Heap.lookup at hv
  generalize h.size = room at hv
  induction room generalizing o with
  | zero => cases hv
  | succ room ih =>
      rw [Heap.lookupWithin] at hv
      split at hv
      · next own hown =>
          cases hv
          exact hs.own hown
      · split at hv
        · exact ih hv
        · cases hv

section Showing

theorem spells_properName {o : Object} (ho : S.Holds (.object o)) {name : String}
    (hn : o.properName? = some name) : S.Spells name :=
  holds_object.mp ho name (Option.filter_eq_some_iff.mp hn).1

theorem spells_title {o : Object} (ho : S.Holds (.object o)) : S.Spells o.title := by
  unfold Object.title
  cases hname : o.properName? with
  | none => exact spells_word (by decide)
  | some name => exact spells_properName ho hname

theorem spells_header {o : Object} (ho : S.Holds (.object o)) : S.Spells o.header := by
  unfold Object.header
  cases hname : o.properName? with
  | none => exact spells_word (by decide)
  | some name => exact (spells_properName ho hname).framed (by decide) (by decide)

theorem gives_displayInt (n : Int) : GivesOnly S.Spells (displayInt n) := by
  unfold displayInt
  split
  · exact .ok (spells_ofInt n)
  · exact .error _

theorem spells_listed {texts : List String} (ht : ∀ text ∈ texts, S.Spells text) :
    S.Spells ("[" ++ ", ".intercalate texts ++ "]") :=
  (Spells.intercalate (spells_word (by decide)) ht).framed (by decide) (by decide)

theorem gives_displayWith {showObject : Object → Except Fault String}
    (ho : ∀ o, S.Holds (.object o) → GivesOnly S.Spells (showObject o)) (hv : S.Holds v) :
    GivesOnly S.Spells (displayWith showObject v) := by
  induction v using Value.induction with
  | hlist items ih =>
      rw [displayWith_list]
      have hitems := holds_list.mp hv
      have hshown := GivesOnly.mapM fun item hi => ih item hi (hitems item hi)
      exact hshown.bind fun _ ht => .ok (spells_listed ht)
  | hleaf v hleaf =>
      cases v with
      | list items => exact absurd rfl (hleaf items)
      | int n => exact gives_displayInt n
      | decimal d => exact .ok (spells_plain d)
      | character text | string text => exact .ok ((holds_leaf rfl).mp hv)
      | function f =>
          exact .ok (((holds_leaf rfl).mp hv).1.framed (by decide) (by decide))
      | object o => exact ho o hv
      | bool b => cases b <;> exact .ok (spells_word (by decide))
      | nil | foreign => exact .ok (spells_word (by decide))

theorem gives_displayMember {showObject : Object → Except Fault String}
    (ho : ∀ o, S.Holds (.object o) → GivesOnly S.Spells (showObject o)) {name : String}
    (hn : S.Spells name) (hv : S.Holds v) : GivesOnly S.Spells (displayMember showObject name v) := by
  have hlet : S.Spells ("LET " ++ name ++ " = ") :=
    hn.framed (by decide) (by decide)
  have hshown := gives_displayWith ho hv
  cases v with
  | function f => exact .ok (hn.framed (by decide) (by decide))
  | object o =>
      refine .ok (Spells.append (Spells.trimEnd ?_) (spells_word (by decide)))
      refine (hn.framed (by decide) (by decide)).append ?_
      cases hname : o.name with
      | none => exact spells_empty
      | some name => exact holds_object.mp hv name hname
  | nil | bool | int | decimal | character | string | list | foreign =>
      exact hshown.bind fun text ht => .ok ((hlet.append ht).append (spells_word (by decide)))

theorem gives_displayObject (hs : S.Supplies h) (room : Nat) (path : List FrameId) {o : Object}
    (ho : S.Holds (.object o)) : GivesOnly S.Spells (displayObject h room path o) := by
  induction room generalizing path o with
  | zero => exact .error _
  | succ room ih =>
      rw [displayObject]
      split
      · exact .error _
      · have hmembers : GivesOnly (fun texts => ∀ text ∈ texts, S.Spells text)
            ((h.bindings o.frame).entries.mapM fun member =>
              displayMember (displayObject h room (o.frame :: path)) member.1 member.2) := by
          refine .mapM fun member hm => ?_
          obtain ⟨hname, hvalue⟩ := hs o.frame member hm
          exact gives_displayMember (fun o ho => ih _ ho) hname hvalue
        refine hmembers.bind fun texts ht => .ok (Spells.intercalate (spells_word (by decide)) ?_)
        refine List.forall_mem_append.mpr ⟨List.forall_mem_cons.mpr ⟨spells_header ho, ht⟩, ?_⟩
        simpa using spells_word (by decide)

/-- What is shown of a value comes from it and from the heap. -/
theorem gives_display (hs : S.Supplies h) (hv : S.Holds v) : GivesOnly S.Spells (display h v) :=
  gives_displayWith (fun _ ho => gives_displayObject hs _ _ ho) hv

theorem spells_wrapped {content : String} (hc : S.Spells content) : S.Spells (wrapped content) :=
  hc.framed (by decide) (by decide)

mutual

theorem gives_inspect (v : Value) (hv : S.Holds v) : GivesOnly S.Spells (inspect v) := by
  cases v with
  | list items =>
      rw [inspect]
      refine (gives_inspectAll items (holds_list.mp hv)).bind fun texts ht => .ok ?_
      exact spells_wrapped (spells_listed ht)
  | int n =>
      rw [inspect, map_eq_pure_bind]
      exact (gives_displayInt n).bind fun _ ht => .ok (spells_wrapped ht)
  | decimal d =>
      refine .ok (spells_wrapped ?_)
      exact (spells_scientific d).framed (by decide) (by decide)
  | character text =>
      have htext : S.Spells text := (holds_leaf rfl).mp hv
      exact .ok (spells_wrapped (htext.quoted.framed (by decide) (by decide)))
  | string text =>
      have htext : S.Spells text := (holds_leaf rfl).mp hv
      exact .ok (spells_wrapped htext.quoted)
  | function f =>
      have hname : S.Spells f.name := ((holds_leaf rfl).mp hv).1
      exact .ok (hname.quoted.framed (by decide) (by decide))
  | object o =>
      refine .ok (Spells.framed ?_ (by decide) (by decide))
      unfold inspectName
      split
      · next name hname => exact Spells.quoted (holds_object.mp hv name hname)
      · exact spells_word (by decide)
  | bool b => cases b <;> exact .ok (spells_wrapped (spells_word (by decide)))
  | nil | foreign => exact .ok (spells_wrapped (spells_word (by decide)))

theorem gives_inspectAll (vs : List Value) (hvs : ∀ v ∈ vs, S.Holds v) :
    GivesOnly (fun texts => ∀ text ∈ texts, S.Spells text) (inspectAll vs) := by
  rw [inspectAll.eq_def]
  cases vs with
  | nil => exact .ok (by simp)
  | cons v rest =>
      obtain ⟨hv, hrest⟩ := List.forall_mem_cons.mp hvs
      refine (gives_inspect v hv).bind fun text ht => ?_
      exact (gives_inspectAll rest hrest).bind fun texts hts => .ok (List.forall_mem_cons.mpr ⟨ht, hts⟩)

end

end Showing

end Stock

end ProtoScript
