import ProtoScript.Proofs.Eval.Provenance
import ProtoScript.Proofs.Report.Writing
import ProtoScript.Proofs.Session.Soundness
import ProtoScript.Proofs.Token.Letters
import ProtoScript.Proofs.Tree.Letters

/-!
# The letters of a session

If the units of a session are spelled in an alphabet, then so is everything that comes of them: their
tokens and trees, the values and lines of their runs, and whatever is told about a failure.
-/

namespace ProtoScript
open ProtoScript.Text ProtoScript.Text.Alphabet
variable {A : Alphabet}

namespace Stock

/-- The stock of the nodes whose words are spelled in an alphabet. -/
def spelled (A : Alphabet) : Stock where
  toAlphabet := A
  node n := n.AllWords A.Spells
  part h hp := (Node.allWords_iff.mp h).2 _ hp
  word h _ hw := (Node.allWords_iff.mp h).1 _ hw

variable {S : Stock}

theorem Supplies.addNative {h : Heap} (hs : S.Supplies h) {name : String} (hn : S.Spells name)
    (native : Native) (frame : FrameId) : S.Supplies (h.addNative frame name native) := by
  have hvalue (ident : Nat) : S.Holds (.function { ident, name, body := .native native }) :=
    (holds_leaf rfl).mpr ⟨hn, by simp⟩
  exact Supplies.bind (h := (h.createFunction name (.native native)).2) hs hn (hvalue h.functions) frame

theorem Supplies.bindText {h : Heap} (hs : S.Supplies h) {text : String} (ht : S.Spells text)
    (frame : FrameId) : S.Supplies (h.bind frame text (.string text)) :=
  hs.bind ht ((holds_leaf (v := .string text) rfl).mpr ht) frame

/-- What programs find is spelled in every alphabet. -/
theorem supplies_initial : S.Supplies .initial := by
  have hempty : S.Supplies { frames := #[{}, {}, {}] } := by
    intro f entry he
    rcases f with _ | _ | _ | f <;> cases he
  have hsample : S.Holds (.object Heap.sampleObject) :=
    holds_object.mpr (by simpa [Heap.sampleObject] using spells_word (by decide))
  have hprototype : S.Holds (.object Heap.samplePrototype) :=
    holds_object.mpr (by simpa [Heap.samplePrototype] using spells_word (by decide))
  have h := hempty
  replace h := h.addNative (spells_word (by decide) : S.Spells "debug") .debug Heap.rootFrame
  replace h := h.addNative (spells_word (by decide) : S.Spells "print") .print Heap.rootFrame
  replace h := h.addNative (spells_word (by decide) : S.Spells "log") .log Heap.rootFrame
  replace h := h.addNative (spells_word (by decide) : S.Spells "list") .list Heap.rootFrame
  replace h := h.addNative (spells_word (by decide) : S.Spells "range") .range Heap.rootFrame
  replace h := h.bindText (spells_word (by decide) : S.Spells "variable") Heap.rootFrame
  replace h := h.addNative (spells_word (by decide) : S.Spells "function") .function Heap.rootFrame
  replace h := h.bindText (spells_word (by decide) : S.Spells "inherited_property") Heap.samplePrototype.frame
  replace h := h.addNative (spells_word (by decide) : S.Spells "inherited_method") .method
    Heap.samplePrototype.frame
  replace h := h.bind (spells_word (by decide) : S.Spells Heap.prototypeName) hprototype
    Heap.sampleObject.frame
  replace h := h.bindText (spells_word (by decide) : S.Spells "property") Heap.sampleObject.frame
  replace h := h.addNative (spells_word (by decide) : S.Spells "method") .method Heap.sampleObject.frame
  exact h.bind (spells_word (by decide)) hsample Heap.rootFrame

end Stock

namespace Failure

/-- What is told about the failure is spelled in the alphabet. -/
def In (A : Alphabet) (failure : Failure) : Prop :=
  A.SpellsMessage failure.told.message

theorem in_breakdown {b : Breakdown} (htitle : A.Spells b.title) (htext : A.Spells b.text) :
    (Failure.breakdown b).In A :=
  spellsMessage_one (spells_word (by decide)) ((htitle.append (spells_word (by decide))).append htext)

theorem in_ofFault {fault : Fault} (h : (Stock.spelled A).Admits fault) : (Failure.ofFault fault).In A := by
  cases fault with
  | error e => exact h.2
  | endless => exact spellsMessage_one (spells_word (by decide)) spells_empty
  | breakdown b => exact in_breakdown h.1 h.2

end Failure

section Reading
variable {source : String}

theorem letters_of_parseUnit (hs : A.Spells source) {program : Node} (h : parseUnit source = .ok program) :
    program.AllWords A.Spells := by
  have hparse := (parseUnit_iff.mp h).2
  have hshaped : ∀ token ∈ (Token.lex source).tokens, token.Shaped := fun token ht =>
    Token.Emitted.shaped ⟨source, ht⟩
  exact Grammar.letters_of_parse hshaped hparse (Token.letters_lex hs).1

/-- What is told about a unit that is not read is spelled in its alphabet. -/
theorem Unread.letters {failure : Failure} (h : Unread source failure) (hs : A.Spells source) :
    failure.In A := by
  obtain ⟨htokens, herror⟩ := Token.letters_lex hs
  cases h with
  | @malformed e he =>
      rw [Failure.ofLex_of_lex he]
      exact Token.Malformed.spellsMessage (herror e he)
  | misfit he hp =>
      rcases Grammar.letters_of_parse_error (fun token ht => ⟨source, ht⟩) hp htokens with
        ⟨e, rfl, hmessage⟩ | ⟨reason, rfl, htitle, htext⟩
      · exact hmessage
      · exact Failure.in_breakdown htitle htext

end Reading

namespace Session
variable {s : Session}

/-- Everything in the session is spelled in the alphabet. -/
structure In (A : Alphabet) (s : Session) : Prop where
  reporter : s.reporter.In A
  path : A.Spells s.path
  queue : ∀ entry ∈ s.queue.entries, A.Spells entry.2.text ∧ entry.2.program.AllWords A.Spells
  results : ∀ value ∈ s.results, (Stock.spelled A).Holds value
  state : (Stock.spelled A).Stocked s.state

namespace In

theorem start {reporter : Reporter} (hr : reporter.In A) {path : String} (hp : A.Spells path)
    (interactive : Bool) : (Session.start reporter path interactive).In A where
  reporter := by
    unfold Session.start
    simp only
    split <;> exact hr.enterFile hp
  path := hp
  queue := by rintro entry ⟨⟩
  results := by rintro value ⟨⟩
  state := ⟨Stock.supplies_initial, by simp [Session.start, State.initial]⟩

variable (h : s.In A)
include h

theorem enqueue {text : String} (ht : A.Spells text) (number : Int) :
    Safe (In A) (Failure.In A) (Session.enqueue text number s) := by
  have hentered : (s.reporter.enterUnit s.path { text, number }).In A := h.reporter.enterUnit h.path ht
  cases hparse : parseUnit text with
  | ok program =>
      rw [enqueue_apply hparse]
      refine .ok ⟨hentered.enterFile h.path, h.path, ?_, h.results, h.state⟩
      intro entry he
      rcases Table.mem_put he with rfl | he
      · exact ⟨ht, letters_of_parseUnit ht hparse⟩
      · exact h.queue entry he
  | error failure =>
      rw [enqueue_of_error hparse]
      exact .error ⟨hentered, h.path, h.queue, h.results, h.state⟩ ((unread_of_parseUnit hparse).letters ht)

theorem runUnits {units : List (Int × QueuedUnit)}
    (hunits : ∀ entry ∈ units, A.Spells entry.2.text ∧ entry.2.program.AllWords A.Spells) :
    Safe (In A) (Failure.In A) (Session.runUnits units s) := by
  induction units generalizing s with
  | nil => exact .ok h
  | cons entry rest ih =>
      obtain ⟨number, text, program⟩ := entry
      obtain ⟨⟨htext, hprogram⟩, hrest⟩ := List.forall_mem_cons.mp hunits
      have hentered : (s.reporter.enterUnit s.path { text, number }).In A :=
        h.reporter.enterUnit h.path htext
      have hqueue : ∀ entry ∈ (s.queueAfter number).entries,
          A.Spells entry.2.text ∧ entry.2.program.AllWords A.Spells :=
        fun entry he => h.queue entry (Sound.mem_queueAfter he)
      have hends := Stock.draws_run (S := .spelled A) s.tracing Eval.maxDepth hprogram s.state h.state
      rw [runUnits_cons]
      change Stock.Ends _ _ (Eval.run (.standard s.tracing) program s.state) at hends
      generalize Eval.run (.standard s.tracing) program s.state = r at hends
      cases hends with
      | @ok value state hv ht =>
          refine ih ⟨hentered.enterFile h.path, h.path, hqueue, ?_, ht⟩ hrest
          exact List.forall_mem_cons.mpr ⟨hv, h.results⟩
      | error hf ht => exact .error ⟨hentered, h.path, hqueue, h.results, ht⟩ (Failure.in_ofFault hf)

theorem run : Safe (In A) (Failure.In A) (Session.run s) := by
  have hunits := h.runUnits h.queue
  rw [run_apply]
  generalize Session.runUnits s.queue.entries s = r at hunits
  cases hunits with
  | error ht hf => exact .error ht hf
  | @ok _ t ht =>
      refine .ok ?_
      unfold finished
      split
      · exact ht
      · exact ⟨ht.reporter, ht.path, (by rintro entry ⟨⟩), ht.results, ht.state⟩

/-- What was written is spelled in the alphabet. -/
theorem spells_flush : A.Spells (s.flush .plain).1 := by
  refine Spells.join (List.forall_mem_map.mpr fun event he => ?_)
  have hevent := h.state.output event (Array.mem_toList_iff.mp he)
  cases event with
  | console text => exact hevent.append (spells_word (by decide))
  | step kind detail =>
      have hkind : A.Spells kind.word := by cases kind <;> exact spells_word (by decide)
      change A.Spells (s.reporter.stepText .plain kind.word detail)
      unfold Reporter.stepText
      rw [Reporter.paint_plain, Reporter.paint_plain]
      split
      · exact ((hkind.framed (by decide) (by decide)).append hevent).append (spells_word (by decide))
      · exact spells_empty

theorem flush (terminal : Style) : (s.flush terminal).2.In A :=
  ⟨h.reporter, h.path, h.queue, h.results, h.state.heap, by simp [Session.flush]⟩

end In

end Session

/-- What a guard writes about a failure, and what it leaves in work, is spelled in the alphabet. -/
theorem Reporter.In.guard {r : Reporter} (hr : r.In A) {failure : Failure} (hf : failure.In A) :
    A.Spells (r.guard .plain failure.signal).output ∧ (r.guard .plain failure.signal).reporter.In A := by
  rw [Failure.guard_signal, settle_output]
  exact ⟨hr.spells_reportText hf, hr.settle _ _ _⟩

end ProtoScript
