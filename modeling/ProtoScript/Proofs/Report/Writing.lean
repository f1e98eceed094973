import ProtoScript.Proofs.Eval.Moves
import ProtoScript.Proofs.Text.Marks
import ProtoScript.Report.Reporter

/-!
# What a reporter writes

A reporter on a terminal whose style is decorative writes what it writes on a plain one, with marks in it;
colours decide nothing else. On a plain terminal there are no marks, and everything is spelled in the
alphabet of the units in work and of the message.
-/

namespace ProtoScript
open ProtoScript.Text ProtoScript.Text.Alphabet

theorem Text.line_placeAt_subset (source : List Char) (offset : Int) :
    (placeAt source offset).line ⊆ source := by
  intro c hc
  rcases List.mem_append.mp hc with hc | hc
  · have hbefore := (List.takeWhile_sublist _).subset (List.mem_reverse.mp hc)
    exact List.mem_of_mem_take (List.mem_reverse.mp hbefore)
  · exact List.mem_of_mem_drop ((List.takeWhile_sublist _).subset hc)

namespace Reporter

section Marks
variable (r : Reporter) (color : Bool) (report : Report)

/-- The reporter with colours on or off. -/
def recolored (r : Reporter) (color : Bool) : Reporter :=
  { r with color }

theorem paint_plain (marks : List Mark) (text : String) : (r.style .plain).paint marks text = text := by
  cases hcolor : r.color <;> simp [style, Style.onlyIf, hcolor, Style.plain]

variable {terminal : Style} (ht : terminal.Decorative)
include ht

theorem decorative_style : (r.style terminal).Decorative :=
  ht.onlyIf r.color

theorem painted_eventText (event : Event) :
    Painted (r.eventText .plain event) ((r.recolored color).eventText terminal event) := by
  have hpaint := decorative_style (r.recolored color) ht
  cases event with
  | console text => exact .refl _
  | step kind detail =>
      change Painted (r.stepText .plain kind.word detail) (if r.verbose then _ else "")
      unfold stepText
      rw [paint_plain, paint_plain]
      split
      · exact ((hpaint _ _).append (hpaint _ _)).append (.refl _)
      · exact .refl _

theorem painted_underline (offset : Int) (source : String) (firstLine : Int) :
    Painted (r.underline .plain report offset source firstLine)
      ((r.recolored color).underline terminal report offset source firstLine) := by
  have hpaint := decorative_style (r.recolored color) ht
  unfold underline
  simp only [paint_plain]
  refine .append (.append (.append ?_ (.refl _)) (.refl _)) (hpaint _ _)
  exact .append (.append (.append (.refl _) (hpaint _ _)) (.refl _)) (.refl _)

theorem painted_diagnosisText :
    Painted (r.diagnosisText .plain report) ((r.recolored color).diagnosisText terminal report) := by
  have hunit : (r.recolored color).currentUnit? = r.currentUnit? := rfl
  unfold diagnosisText
  rw [hunit]
  split
  · split
    · exact (painted_underline r color report ht _ _ _).append (.refl _)
    · exact .refl _
  · exact .refl _

/-- What is written about a failure has marks on a terminal, and is the same otherwise. -/
theorem painted_reportText :
    Painted (r.reportText .plain report) ((r.recolored color).reportText terminal report) := by
  have hpaint := decorative_style (r.recolored color) ht
  have hinternal : Painted (if report.internal then (r.style .plain).paint alarm "[internal] " else "")
      (if report.internal then ((r.recolored color).style terminal).paint alarm "[internal] " else "") := by
    rw [paint_plain]
    split
    · exact hpaint _ _
    · exact .refl _
  unfold reportText
  simp only [paint_plain r alarm "error: "]
  have herror := ((Painted.refl r.tracebackText).append hinternal).append (hpaint alarm "error: ")
  exact ((herror.append (painted_text _ ht)).append (.refl _)).append
    (painted_diagnosisText r color report ht)

/-- The second of two guards makes the same of an interruption as the first, under other colours. -/
structure Guarded.Recolors (color : Bool) (bare guarded : Guarded) : Prop where
  ending : guarded.ending = bare.ending
  output : Painted bare.output guarded.output
  reporter : guarded.reporter = bare.reporter.recolored color

theorem recolors_settle (otherwise : Ending) :
    Guarded.Recolors color (r.settle .plain report otherwise)
      ((r.recolored color).settle terminal report otherwise) := by
  have htext := painted_reportText r color report ht
  unfold settle
  rw [show (r.recolored color).fatal = r.fatal from rfl]
  split <;> exact ⟨rfl, htext, rfl⟩

/-- Colours do not decide what becomes of interrupted work. -/
theorem recolors_guard (signal : Signal) :
    Guarded.Recolors color (r.guard .plain signal) ((r.recolored color).guard terminal signal) := by
  cases signal with
  | exit => exact ⟨rfl, .refl _, rfl⟩
  | report | endless | interrupt | breakdown => exact recolors_settle r color _ ht _

end Marks

section Letters
variable {A : Alphabet} {r : Reporter} {report : Report}

/-- The files and units in work are spelled in the alphabet. -/
def In (A : Alphabet) (r : Reporter) : Prop :=
  ∀ entry ∈ r.traceback.entries, A.Spells entry.1 ∧ ∀ excerpt ∈ entry.2, A.Spells excerpt.text

theorem In.enterUnit (hr : r.In A) {path : String} (hpath : A.Spells path) {excerpt : Excerpt}
    (htext : A.Spells excerpt.text) : (r.enterUnit path excerpt).In A := by
  intro entry he
  rcases Table.mem_put he with rfl | he
  · exact ⟨hpath, by simpa using htext⟩
  · exact hr entry he

theorem In.enterFile (hr : r.In A) {path : String} (hpath : A.Spells path) : (r.enterFile path).In A := by
  intro entry he
  rcases Table.mem_put he with rfl | he
  · exact ⟨hpath, by simp⟩
  · exact hr entry he

theorem In.settle (hr : r.In A) (terminal : Style) (report : Report) (otherwise : Ending) :
    (r.settle terminal report otherwise).reporter.In A := by
  unfold Reporter.settle
  split
  · exact hr
  · rintro entry ⟨⟩

theorem settle_output (r : Reporter) (terminal : Style) (report : Report) (otherwise : Ending) :
    (r.settle terminal report otherwise).output = r.reportText terminal report := by
  unfold Reporter.settle
  split <;> rfl

theorem In.currentUnit (hr : r.In A) {excerpt : Excerpt} (h : r.currentUnit? = some excerpt) :
    A.Spells excerpt.text := by
  obtain ⟨entry, he, hexcerpt⟩ := List.exists_of_findSome?_eq_some h
  exact (hr entry (List.mem_reverse.mp he)).2 excerpt hexcerpt

theorem In.activeUnit (hr : r.In A) {unit : String × Excerpt} (h : unit ∈ r.activeUnits) :
    A.Spells unit.1 := by
  obtain ⟨entry, he, hunit⟩ := List.mem_filterMap.mp h
  obtain ⟨excerpt, -, rfl⟩ := Option.map_eq_some_iff.mp hunit
  exact (hr entry he).1

theorem In.spells_tracebackText (hr : r.In A) : A.Spells r.tracebackText := by
  unfold tracebackText
  split
  · exact spells_empty
  · exact spells_empty
  · refine (spells_word (by decide)).append (Spells.join (List.forall_mem_map.mpr ?_))
    intro unit hu
    exact (((hr.activeUnit hu).framed (by decide) (by decide)).append
      (spells_ofInt _)).append (spells_word (by decide))

theorem spells_underline (r : Reporter) (report : Report) (offset : Int) {source : String}
    (hs : A.Spells source) (firstLine : Int) :
    A.Spells (r.underline .plain report offset source firstLine) := by
  have hpiece {chars : List Char} (h : chars ⊆ (placeAt source.toList offset).line) :
      A.Spells (String.ofList chars) :=
    spells_ofList.mpr fun c hc => hs c (line_placeAt_subset _ _ (h hc))
  have hspaces (count : Nat) : A.Spells (String.ofList (List.replicate count ' ')) :=
    spells_ofList.mpr (has_replicate (A.ordinary (by decide)) count)
  have hcaret (count : Nat) : A.Spells (String.ofList ('^' :: List.replicate count '~')) :=
    spells_ofList.mpr (List.forall_mem_cons.mpr
      ⟨A.ordinary (by decide), has_replicate (A.ordinary (by decide)) count⟩)
  have hheader (n : Int) : A.Spells ("  line " ++ Numeral.ofInt n ++ ":\n") :=
    (spells_ofInt n).framed (by decide) (by decide)
  have hindent : A.Spells "  " := spells_word (by decide)
  have hend : A.Spells "\n" := spells_word (by decide)
  unfold underline
  simp only [paint_plain]
  refine (((Spells.append ?_ hend).append hindent).append (hspaces _)).append (hcaret _)
  refine ((((hheader _).append hindent).append (hpiece (List.take_subset _ _))).append ?_).append
    (hpiece (List.drop_subset _ _))
  exact hpiece (List.Subset.trans (List.drop_subset _ _) (List.take_subset _ _))

theorem In.spells_diagnosisText (hr : r.In A) (report : Report) :
    A.Spells (r.diagnosisText .plain report) := by
  unfold diagnosisText
  split
  · next hunit =>
      split
      · exact (spells_underline r report _ (hr.currentUnit hunit) _).append (spells_word (by decide))
      · exact spells_empty
  · exact spells_empty

/-- What is written about a failure is spelled in the alphabet of the message and of the units in work. -/
theorem In.spells_reportText (hr : r.In A) (hm : A.SpellsMessage report.message) :
    A.Spells (r.reportText .plain report) := by
  have hinternal : A.Spells (if report.internal then "[internal] " else "") := by
    split
    · exact spells_word (by decide)
    · exact spells_empty
  unfold reportText
  simp only [paint_plain]
  exact ((((hr.spells_tracebackText.append hinternal).append (spells_word (by decide))).append hm.text).append
    (spells_word (by decide))).append (hr.spells_diagnosisText report)

end Letters

end Reporter

end ProtoScript
