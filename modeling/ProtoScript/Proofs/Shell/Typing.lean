import ProtoScript.Proofs.Session.Queue
import ProtoScript.Proofs.Shell.Entry
import ProtoScript.Proofs.Text.Lines

/-!
# Typed lines

A shell hands typed lines to its session, unit by unit. The units that it has handed over are put on
record. The texts on record and the unit in progress are together what was typed, in that order, and each
unit comes under the number of its first line. So when a unit cannot be read, the line that the diagnosis
names is the typed line at which reading stopped.
-/

namespace ProtoScript

namespace Session
open Eval
variable {s : Session}

/-- Whether a session waits for a unit: none is in the queue, and no result is left. -/
structure Waiting (s : Session) : Prop where
  interactive : s.interactive = true
  path : s.path = promptPath
  calm : s.reporter.fatal = false
  queue : s.queue.entries = []
  results : s.results = []

/-- No unit is in work. -/
def AtRest (r : Reporter) : Prop :=
  r.traceback.entries = [] ∨ r.traceback.entries = [(promptPath, none)]

theorem enterUnit_of_atRest {r : Reporter} (h : AtRest r) (excerpt : Excerpt) :
    (r.enterUnit promptPath excerpt).traceback.entries = [(promptPath, some excerpt)] := by
  rcases h with h | h <;> simp [Reporter.enterUnit, Table.set, h, Table.put]

theorem atRest_leaveUnit {r : Reporter} (h : AtRest r) (excerpt : Excerpt) :
    AtRest ((r.enterUnit promptPath excerpt).leaveUnit promptPath) := by
  have hentries := enterUnit_of_atRest h excerpt
  refine .inr ?_
  simp [Reporter.leaveUnit, Reporter.enterFile, Table.set, hentries, Table.put]

/-- How a session that waits takes a unit: to the end, not at all, or up to a fault. -/
inductive Takes (s : Session) (excerpt : Excerpt) : EStateM.Result Failure Session Unit → Prop
  | done {t : Session} (ht : Waiting t) (hrest : AtRest t.reporter) : Takes s excerpt (.ok () t)
  | refused {failure : Failure} (hunread : Unread excerpt.text failure) :
      Takes s excerpt
        (.error failure { s with reporter := s.reporter.enterUnit s.path excerpt })
  | failed {t : Session} {fault : Fault} (ht : Waiting t) : Takes s excerpt (.error (.ofFault fault) t)

theorem Takes.waiting {excerpt : Excerpt} {failure : Failure} {t : Session} (hs : Waiting s)
    (h : Takes s excerpt (.error failure t)) : Waiting t := by
  cases h with
  | refused _ => exact ⟨hs.interactive, hs.path, hs.calm, hs.queue, hs.results⟩
  | failed ht => exact ht

theorem takes_useUnit (hs : Waiting s) (hrest : AtRest s.reporter) (text : String) (number : Int) :
    Takes s { text, number } (Shell.useUnit text number s) := by
  cases hparse : parseUnit text with
  | error failure =>
      rw [Shell.useUnit_of_error hparse]
      exact .refused (unread_of_parseUnit hparse)
  | ok program =>
      have hentries : (s.queued number { text, program }).queue.entries = [(number, { text, program })] := by
        have hnew : number ∉ s.queue.keys := by simp [Table.keys, hs.queue]
        rw [queued, entries_set hnew, hs.queue]
        rfl
      have hqueue : ((s.queued number { text, program }).queueAfter number).entries = [] :=
        queueAfter_entries hs.interactive hentries List.not_mem_nil
      rw [Shell.useUnit, enqueue_then hparse, bind_apply, run_apply, hentries, runUnits_cons]
      cases Eval.run (.standard (s.queued number { text, program }).tracing) program
          (s.queued number { text, program }).state with
      | error fault state =>
          exact .failed ⟨hs.interactive, hs.path, hs.calm, hqueue, hs.results⟩
      | ok value state =>
          let t := (s.queued number { text, program }).passed number { text, program } value state
          have hfinished : t.finished = t := if_pos hs.interactive
          have hresults : t.results = value :: [] := congrArg (value :: ·) hs.results
          have hwaiting : Waiting { t with results := [] } := ⟨hs.interactive, hs.path, hs.calm, hqueue, rfl⟩
          have hleft : AtRest t.reporter := by
            have hpath := hs.path
            simp only [t, passed, queued, hpath]
            exact atRest_leaveUnit (atRest_leaveUnit hrest _) _
          have hshown := Shell.shown_showValue value { t with results := [] }
          change Takes s _ (Shell.showResult t.finished)
          rw [hfinished, Shell.showResult_of_cons hresults]
          generalize Shell.showValue value { t with results := [] } = r at hshown ⊢
          cases hshown with
          | done output =>
              exact .done ⟨hwaiting.interactive, hwaiting.path, hwaiting.calm, hwaiting.queue, rfl⟩ hleft
          | failed fault => exact .failed hwaiting

end Session

namespace Shell
open Eval OnRecord Session

/-- The text of typed lines, each with its line end. -/
def typedText (lines : List String) : String :=
  String.join (lines.map (· ++ "\n"))

/-- Groups of lines as units, each under the number of its first line. -/
def numbered : (first : Nat) → (groups : List (List String)) → List Excerpt
  | _, [] => []
  | first, group :: rest =>
      { text := typedText group, number := first } :: numbered (first + group.length) rest

/-- Like `enter`, with the unit put on record that the session is given. -/
def enterNoted (line : String) : OnRecord Failure Shell Excerpt Unit := do
  let unit ← quiet (extendUnit line)
  if isUnfinished unit then
    quiet (modify fun shell => { shell with buffer := unit, prompt := .secondary })
  else
    quiet (modify fun shell => { shell with buffer := "", prompt := .primary })
    let number := (← quiet get).startNumber
    noted (fun _ _ => { text := unit, number }) (inSession (Session.enqueue unit number))
    quiet (inSession do
      Session.run
      showResult)

theorem inSession_bind {α β : Type} (m : SessionStep α) (k : α → SessionStep β) :
    inSession (m >>= k) = inSession m >>= fun a => inSession (k a) := by
  funext shell
  rw [bind_apply]
  simp only [inSession, bind_apply]
  cases m shell.session <;> rfl

/-- To put units on record does not change what a line does. -/
theorem mirrors_enterNoted (line : String) : Mirrors (enterNoted line) (enter line) := by
  refine .bind (.quiet _) fun unit => ?_
  cases isUnfinished unit with
  | true => exact .quiet (modify fun shell : Shell => { shell with buffer := unit, prompt := .secondary })
  | false =>
      refine .bind (.quiet (modify fun shell : Shell => { shell with buffer := "", prompt := .primary }))
        fun _ => .bind (.quiet get) fun shell => ?_
      simp only [inSession_bind]
      exact .bind (.noted _ _) fun _ => .quiet _

/-- A unit is put on record whenever a line finishes one. -/
theorem record_enterNoted (line : String) (shell : Shell) (record : List Excerpt) :
    (final (enterNoted line (shell, record))).2 =
      if isUnfinished (shell.extended line) then record
      else record ++ [{ text := shell.extended line, number := shell.firstNumber }] := by
  have henter : enterNoted line (shell, record) =
      (if isUnfinished (shell.extended line) then
        quiet (modify fun s => { s with buffer := shell.extended line, prompt := .secondary })
      else do
        quiet (modify fun s => { s with buffer := "", prompt := .primary })
        let number := (← quiet get).startNumber
        noted (fun _ _ => { text := shell.extended line, number })
          (inSession (Session.enqueue (shell.extended line) number))
        quiet (inSession do
          Session.run
          showResult) : OnRecord Failure Shell Excerpt Unit)
        ({ shell with lineNumber := shell.lineNumber + 1, startNumber := shell.firstNumber }, record) := rfl
  rw [henter]
  split
  · rfl
  · change (final ((do
        noted (fun _ _ => { text := shell.extended line, number := shell.firstNumber })
          (inSession (Session.enqueue (shell.extended line) shell.firstNumber))
        quiet (inSession do
          Session.run
          showResult) : OnRecord Failure Shell Excerpt Unit) (shell.completed, record))).2 = _
    rw [bind_apply, noted]
    cases inSession (Session.enqueue (shell.extended line) shell.firstNumber) shell.completed with
    | ok _ t => exact record_quiet _ t _
    | error failure t => rfl

theorem numbered_append (first : Nat) (groups : List (List String)) (group : List String) :
    numbered first (groups ++ [group]) =
      numbered first groups ++
        [{ text := typedText group, number := (first + groups.flatten.length : Nat) }] := by
  induction groups generalizing first with
  | nil => rfl
  | cons head rest ih =>
      simp only [List.cons_append, numbered, ih, List.flatten_cons, List.length_append, Nat.add_assoc]

theorem typedText_append (lines more : List String) :
    typedText (lines ++ more) = typedText lines ++ typedText more := by
  simp [typedText]

theorem typedText_eq_empty {lines : List String} : typedText lines = "" ↔ lines = [] := by
  cases lines with
  | nil => simp [typedText]
  | cons line rest => simp [typedText]

theorem toList_typedText (lines : List String) :
    (typedText lines).toList = Text.ofLines (lines.map String.toList) := by
  simp [typedText, Text.ofLines, List.flatMap_map]

/-- The texts of units are those of their lines. -/
theorem join_numbered (first : Nat) (groups : List (List String)) :
    String.join ((numbered first groups).map Excerpt.text) = typedText groups.flatten := by
  induction groups generalizing first with
  | nil => rfl
  | cons group rest ih =>
      simp only [numbered, List.map_cons, String.join_cons, ih, List.flatten_cons, typedText_append]

/-- How a shell stands behind typed lines. The lines are divided into groups and a rest. The session was
given the groups as units, each under the number of its first line, and the rest is the unit in progress;
the session waits for the next unit. -/
structure Accounted (lines : List String) (record : List Excerpt) (shell : Shell) : Prop where
  units : ∃ groups pending, lines = groups.flatten ++ pending ∧ (∀ group ∈ groups, group ≠ []) ∧
    record = numbered 1 groups ∧ shell.buffer = typedText pending ∧
    (pending ≠ [] → shell.startNumber = groups.flatten.length + 1)
  prompt : shell.prompt = .secondary ↔ shell.buffer ≠ ""
  lineNumber : shell.lineNumber = lines.length
  waiting : Waiting shell.session
  atRest : AtRest shell.session.reporter

namespace Accounted
variable {lines : List String} {record : List Excerpt} {shell : Shell}

/-- Nothing that was typed is lost, and nothing comes twice. -/
theorem text (h : Accounted lines record shell) :
    String.join (record.map Excerpt.text) ++ shell.buffer = typedText lines := by
  obtain ⟨groups, pending, rfl, -, rfl, hbuffer, -⟩ := h.units
  rw [join_numbered, hbuffer, typedText_append]

theorem extended_eq {pending : List String} (hbuffer : shell.buffer = typedText pending)
    (line : String) : shell.extended line = typedText (pending ++ [line]) := by
  rw [extended, hbuffer, typedText_append]
  simp [typedText, String.append_assoc]

theorem firstNumber_eq {groups : List (List String)} {pending : List String}
    (h : Accounted (groups.flatten ++ pending) record shell) (hbuffer : shell.buffer = typedText pending)
    (hstart : pending ≠ [] → shell.startNumber = groups.flatten.length + 1) :
    shell.firstNumber = groups.flatten.length + 1 := by
  rw [firstNumber, hbuffer, h.lineNumber]
  split
  · next hempty => rw [typedText_eq_empty.mp hempty, List.append_nil]
  · next hne => exact hstart fun hnil => hne (typedText_eq_empty.mpr hnil)

theorem lineNumber_succ (h : Accounted lines record shell) (line : String) :
    shell.lineNumber + 1 = (lines ++ [line]).length := by
  rw [h.lineNumber, List.length_append, List.length_singleton]

theorem waiting_cleared {s : Session} (h : Waiting s) {reporter : Reporter}
    (hr : reporter.fatal = false) :
    Waiting { s with state := { s.state with output := #[] }, reporter } :=
  ⟨h.interactive, h.path, hr, h.queue, h.results⟩

/-- A line may leave its unit unfinished. -/
theorem continued (h : Accounted lines record shell) (line : String) :
    Accounted (lines ++ [line]) record ((shell.continued line).cleared shell.session.reporter) := by
  have hcount := h.lineNumber_succ line
  have hwaiting := waiting_cleared h.waiting h.waiting.calm
  obtain ⟨groups, pending, rfl, hgroups, rfl, hbuffer, hstart⟩ := h.units
  have hfirst := h.firstNumber_eq hbuffer hstart
  have hextended := extended_eq hbuffer line
  have hne : shell.extended line ≠ "" := by
    rw [hextended, Ne, typedText_eq_empty]
    simp
  exact ⟨⟨groups, pending ++ [line], List.append_assoc _ _ _, hgroups, rfl, hextended, fun _ => hfirst⟩,
    ⟨fun _ => hne, fun _ => rfl⟩, hcount, hwaiting, h.atRest⟩

/-- A line may finish its unit. -/
theorem completed (h : Accounted lines record shell) (line : String) {t : Session} (ht : Waiting t)
    {reporter : Reporter} (hr : reporter.fatal = false) (hrest : AtRest reporter) :
    Accounted (lines ++ [line])
      (record ++ [{ text := shell.extended line, number := shell.firstNumber }])
      (({ shell.completed with session := t } : Shell).cleared reporter) := by
  have hcount := h.lineNumber_succ line
  have hprompt : Prompt.primary = .secondary ↔ "" ≠ "" := by simp
  obtain ⟨groups, pending, rfl, hgroups, rfl, hbuffer, hstart⟩ := h.units
  refine ⟨⟨groups ++ [pending ++ [line]], [], by simp, ?_, ?_, rfl, fun hne => absurd rfl hne⟩, hprompt,
    hcount, waiting_cleared ht hr, hrest⟩
  · intro group hg
    rcases List.mem_append.mp hg with hg | hg
    · exact hgroups group hg
    · rw [List.mem_singleton.mp hg]
      simp
  · rw [numbered_append, extended_eq hbuffer, h.firstNumber_eq hbuffer hstart, Nat.add_comm]

/-- What a line keeps. -/
theorem step (h : Accounted lines record shell) (terminal : Text.Style) (line : String) :
    Accounted (lines ++ [line]) (final (enterNoted line (shell, record))).2
      (shell.runLine terminal line).shell := by
  have henter := enter_apply line shell
  have htakes := takes_useUnit h.waiting h.atRest (shell.extended line) shell.firstNumber
  rw [record_enterNoted]
  split
  · next hunfinished =>
      rw [if_pos hunfinished] at henter
      rw [runLine_of_ok henter]
      exact h.continued line
  · next hfinished =>
      rw [if_neg hfinished] at henter
      cases hresult : useUnit (shell.extended line) shell.firstNumber shell.session with
      | ok _ t =>
          rw [runLine_of_ok (henter.trans (inSession_of_ok hresult))]
          rw [hresult] at htakes
          cases htakes with
          | done ht hrest => exact h.completed line ht ht.calm hrest
      | error failure t =>
          rw [hresult] at htakes
          have ht := htakes.waiting h.waiting
          rw [runLine_of_error (henter.trans (inSession_of_error hresult)) ht.calm]
          exact h.completed line ht ht.calm (.inl rfl)

end Accounted

/-- A line fails because of the unit that it finishes. -/
theorem Accounted.takes_of_error {lines : List String} {record : List Excerpt} {shell t : Shell}
    {line : String} {failure : Failure} (h : Accounted lines record shell)
    (he : enter line shell = .error failure t) :
    ∃ s, Takes shell.session { text := shell.extended line, number := shell.firstNumber }
      (.error failure s) ∧ t = { shell.completed with session := s } := by
  have htakes := takes_useUnit h.waiting h.atRest (shell.extended line) shell.firstNumber
  rw [enter_apply] at he
  split at he
  · cases he
  · cases hresult : useUnit (shell.extended line) shell.firstNumber shell.session with
    | ok _ s =>
        have hok := (inSession_of_ok hresult : inSession _ shell.completed = _)
        cases he.symm.trans hok
    | error failure' s =>
        have herror := (inSession_of_error hresult : inSession _ shell.completed = _)
        cases he.symm.trans herror
        exact ⟨s, hresult ▸ htakes, rfl⟩

/-- The text of a diagnosis starts with the number of a typed line. It is the line on which the offset lies
in a unit that comes behind `start` typed characters. -/
def NamesLine (lines : List String) (start : Nat) (offset : Int) (text : String) : Prop :=
  ∃ above here below column shown, lines = above ++ here :: below ∧ column ≤ here.length ∧
    start + offset = ((typedText above).length + column : Nat) ∧
    text = "  line " ++ Numeral.ofNat (above.length + 1) ++ ":\n" ++ shown

section Diagnosis
variable {lines : List String}

theorem length_typedText (lines : List String) :
    (typedText lines).length = (Text.ofLines (lines.map String.toList)).length := by
  rw [← toList_typedText, String.length_toList]

/-- Every character that was typed lies on a typed line, or is the end of one. -/
theorem exists_typedLine {n : Nat} (h : n < (typedText lines).length) :
    ∃ above here below column, lines = above ++ here :: below ∧ column ≤ here.length ∧
      n = (typedText above).length + column := by
  rw [length_typedText] at h
  obtain ⟨above, here, below, column, hlines, hcolumn, hoffset⟩ := Text.exists_line h
  obtain ⟨above, rest, rfl, rfl, hrest⟩ := List.map_eq_append_iff.mp hlines
  obtain ⟨here, below, rfl, rfl, rfl⟩ := List.map_eq_cons_iff.mp hrest
  rw [String.length_toList] at hcolumn
  exact ⟨above, here, below, column, rfl, hcolumn, by rw [hoffset, length_typedText]⟩

theorem placeAt_typedText {above below : List String} {here : String} {column : Nat}
    (hlines : ∀ line ∈ above ++ here :: below, '\n' ∉ line.toList) (hcolumn : column ≤ here.length) :
    Text.placeAt (typedText (above ++ here :: below)).toList ((typedText above).length + column : Nat) =
      { line := here.toList, index := above.length, column } := by
  rw [List.forall_mem_append, List.forall_mem_cons] at hlines
  have habove : ∀ line ∈ above.map String.toList, '\n' ∉ line := by simpa using hlines.1
  have hcolumn' : column ≤ here.toList.length := by rwa [String.length_toList]
  rw [toList_typedText, length_typedText, List.map_append, List.map_cons, Text.ofLines_append,
    Text.ofLines_cons, Text.placeAt_ofLines habove hlines.2.1 hcolumn', List.length_map]

theorem diagnosisText_of_atRest {r : Reporter} (hr : AtRest r) (excerpt : Excerpt)
    (terminal : Text.Style) {report : Report} {offset : Int} (ho : report.offset = some offset)
    (hd : report.diagnosis = true) (hi : report.internal = false) :
    (r.enterUnit promptPath excerpt).diagnosisText terminal report =
      (r.enterUnit promptPath excerpt).underline terminal report offset excerpt.text excerpt.number
        ++ "\n" := by
  have hunit : (r.enterUnit promptPath excerpt).currentUnit? = some excerpt := by
    rw [Reporter.currentUnit?, enterUnit_of_atRest hr]
    rfl
  simp [Reporter.diagnosisText, ho, hunit, hd, hi]

/-- The line that is shown is the one on which the offset lies. -/
theorem underline_typedText (r : Reporter) (terminal : Text.Style) (report : Report)
    {above below : List String} {here : String} {column : Nat}
    (hlines : ∀ line ∈ above ++ here :: below, '\n' ∉ line.toList) (hcolumn : column ≤ here.length)
    (first : Nat) :
    ∃ shown, r.underline terminal report ((typedText above).length + column : Nat)
        (typedText (above ++ here :: below)) first ++ "\n" =
      "  line " ++ Numeral.ofNat (first + above.length) ++ ":\n" ++ shown := by
  have hnumber : Numeral.ofInt ((first : Int) + (above.length : Nat)) =
      Numeral.ofNat (first + above.length) := by
    rw [← Int.natCast_add, Numeral.ofInt, if_neg (Int.not_lt.mpr (Int.natCast_nonneg _)), Int.natAbs_natCast]
  unfold Reporter.underline
  rw [placeAt_typedText hlines hcolumn]
  simp only [hnumber, String.append_assoc]
  exact ⟨_, rfl⟩

/-- The diagnosis of a unit that cannot be read names the typed line at which reading stopped. -/
theorem Accounted.namesLine {record : List Excerpt} {shell t : Shell} {line : String} {failure : Failure}
    {offset : Int} (h : Accounted lines record shell) (hlines : ∀ l ∈ lines ++ [line], '\n' ∉ l.toList)
    (he : enter line shell = .error failure t) (ho : failure.told.offset = some offset)
    (terminal : Text.Style) :
    NamesLine (lines ++ [line]) (String.join (record.map Excerpt.text)).length offset
      (t.session.reporter.diagnosisText terminal failure.told) := by
  obtain ⟨s, htakes, rfl⟩ := h.takes_of_error he
  obtain ⟨groups, pending, rfl, hgroups, rfl, hbuffer, hstart⟩ := h.units
  have hextended := Accounted.extended_eq hbuffer line
  have hfirst := h.firstNumber_eq hbuffer hstart
  generalize shell.extended line = unit at htakes hextended
  subst hextended
  cases htakes with
  | failed _ =>
      rw [Failure.told_ofFault] at ho
      cases ho
  | refused hunread =>
      have hlast : (typedText (pending ++ [line])).toList.getLast? = some '\n' := by
        rw [toList_typedText, List.map_append, Text.ofLines_append]
        simp
      obtain ⟨hdiagnosis, hinternal, n, rfl, hn⟩ := hunread.located hlast ho
      obtain ⟨above, here, below, column, hunit, hcolumn, rfl⟩ := exists_typedLine hn
      have hsplit : groups.flatten ++ pending ++ [line] = (groups.flatten ++ above) ++ here :: below := by
        rw [List.append_assoc, hunit, List.append_assoc]
      have hunitLines : ∀ l ∈ above ++ here :: below, '\n' ∉ l.toList := by
        rw [hsplit, List.append_assoc] at hlines
        exact fun l hl => hlines l (List.mem_append_right _ hl)
      obtain ⟨shown, hshown⟩ := underline_typedText
        (shell.session.reporter.enterUnit promptPath ⟨typedText (pending ++ [line]), shell.firstNumber⟩)
        terminal failure.told hunitLines hcolumn shell.firstNumber
      refine ⟨groups.flatten ++ above, here, below, column, shown, hsplit, hcolumn, ?_, ?_⟩
      · rw [join_numbered, typedText_append, String.length_append]
        omega
      · rw [← hunit, hfirst] at hshown
        rw [h.waiting.path, diagnosisText_of_atRest h.atRest _ terminal ho hdiagnosis hinternal, hfirst,
          hshown, List.length_append, Nat.add_right_comm]

end Diagnosis

/-- Takes lines one after the other, whatever comes of them. -/
def takeAll (terminal : Text.Style) (shell : Shell) (lines : List String) : Shell :=
  lines.foldl (fun shell line => (shell.runLine terminal line).shell) shell

/-- Like `takeAll`, with the units put on record that the session is given. -/
def takeAllNoted (terminal : Text.Style) (s : Shell × List Excerpt) (lines : List String) :
    Shell × List Excerpt :=
  lines.foldl (fun s line => ((s.1.runLine terminal line).shell, (final (enterNoted line s)).2)) s

theorem takeAllNoted_fst (terminal : Text.Style) (shell : Shell) (record : List Excerpt)
    (lines : List String) :
    (takeAllNoted terminal (shell, record) lines).1 = takeAll terminal shell lines := by
  induction lines generalizing shell record with
  | nil => rfl
  | cons line rest ih => exact ih _ _

/-- What all lines keep. -/
theorem accounted_takeAllNoted {earlier : List String} {record : List Excerpt} {shell : Shell}
    (h : Accounted earlier record shell) (terminal : Text.Style) (lines : List String) :
    Accounted (earlier ++ lines) (takeAllNoted terminal (shell, record) lines).2
      (takeAllNoted terminal (shell, record) lines).1 := by
  induction lines generalizing earlier record shell with
  | nil =>
      rw [List.append_nil]
      exact h
  | cons line rest ih =>
      rw [List.append_cons]
      exact ih (h.step terminal line)

theorem accounted_start (fatal verbose color : Bool) :
    Accounted [] [] (Shell.start { fatal, verbose, color }) where
  units := ⟨[], [], rfl, by simp, rfl, rfl, fun hne => absurd rfl hne⟩
  prompt := by simp [Shell.start]
  lineNumber := rfl
  waiting := ⟨rfl, rfl, rfl, rfl, rfl⟩
  atRest := .inr rfl

/-- Lines are typed into a new shell. The units that the session is given and the unit in progress are
together all lines, in the order in which they were typed; each unit comes under the number of its first
line; the prompt asks for more exactly if a unit is in progress; and nothing is left in the queue or among
the results, whatever becomes of the units. If the next line fails, then one report is written behind the
output of the line. If that report has a place in the unit, then its diagnosis gives the number of the
typed line on which the place lies. -/
theorem typed_lines_are_kept (terminal : Text.Style) (fatal verbose color : Bool) (lines : List String) :
    let shell := takeAll terminal (Shell.start { fatal, verbose, color }) lines
    (∀ line, Mirrors (enterNoted line) (enter line)) ∧
    ∃ record, takeAllNoted terminal (Shell.start { fatal, verbose, color }, []) lines = (shell, record) ∧
      Accounted lines record shell ∧
      String.join (record.map Excerpt.text) ++ shell.buffer = typedText lines ∧
      ∀ line failure t, enter line shell = .error failure t →
        (shell.runLine terminal line).output =
          (t.flush terminal).1 ++ t.session.reporter.reportText terminal failure.told ∧
        ∀ offset, failure.told.offset = some offset → (∀ l ∈ lines ++ [line], '\n' ∉ l.toList) →
          NamesLine (lines ++ [line]) (String.join (record.map Excerpt.text)).length offset
            (t.session.reporter.diagnosisText terminal failure.told) := by
  intro shell
  have haccounted := accounted_takeAllNoted (accounted_start fatal verbose color) terminal lines
  rw [takeAllNoted_fst] at haccounted
  refine ⟨mirrors_enterNoted, _, Prod.ext (takeAllNoted_fst ..) rfl, haccounted, haccounted.text, ?_⟩
  intro line failure t he
  obtain ⟨s, htakes, ht⟩ := haccounted.takes_of_error he
  have hcalm : t.session.reporter.fatal = false := by
    rw [ht]
    exact (htakes.waiting haccounted.waiting).calm
  refine ⟨?_, fun offset ho hlines => haccounted.namesLine hlines he ho terminal⟩
  rw [runLine_of_error he hcalm]

end Shell

end ProtoScript
