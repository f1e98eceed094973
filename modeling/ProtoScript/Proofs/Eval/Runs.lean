import ProtoScript.Proofs.Decimal.Division
import ProtoScript.Proofs.Eval.Soundness

/-!
# Programs in a row

Programs are run one after the other over one state, and go on where the one before them ended or failed.
Two results follow from what every step upholds. The frames stay sound at each point of such a run, and
names stay in their frames in the order in which they came. And programs that were read from sources fail
only as the language says, or at a limit of numbers: no operator is unknown, no value lacks a kind, every
message can be written, and no quotient has a zero below it.
-/

namespace ProtoScript

namespace Eval
variable {written : Prop} {p : Point}

/-- The state after programs that are run one after the other, whether they succeed or fail. -/
def runInTurn (cx : Context) (programs : List Node) (s : State) : State :=
  programs.foldl (fun s program => finalState (run cx program s)) s

theorem Ends.final {α : Type} {post : Point → α → Prop} {r : EStateM.Result Fault State α}
    (h : Ends written post p r) :
    ∃ q : Point, p.Path q ∧ q.Good written ∧ q.scope = p.scope ∧ q.toState = finalState r ∧
      ∀ a, outcome r = .ok a → post q a := by
  cases h with
  | @ok a q hpath hq hscope ha =>
      refine ⟨q, hpath, hq, hscope, rfl, ?_⟩
      rintro _ ⟨⟩
      exact ha
  | @error fault q hpath hq hscope _ =>
      refine ⟨q, hpath, hq, hscope, rfl, ?_⟩
      rintro _ ⟨⟩

theorem ends_run (tracing : Tracing) (depth : Nat) (hp : p.Good written) (program : Node)
    (hprogram : written → program.Written) :
    Ends written (Point.Holds written) p (run (.upTo tracing depth) program p.toState) :=
  keeps_run tracing depth hprogram p (.refl p) hp

/-- Moves lead from the start of a run of several programs to its end. -/
theorem exists_runInTurn (tracing : Tracing) (depth : Nat) (hp : p.Good written)
    (programs : List Node)
    (hprograms : written → ∀ program ∈ programs, program.Written) :
    ∃ q : Point, p.Path q ∧ q.Good written ∧ q.scope = p.scope ∧
      q.toState = runInTurn (.upTo tracing depth) programs p.toState := by
  induction programs generalizing p with
  | nil => exact ⟨p, .refl p, hp, rfl, rfl⟩
  | cons program rest ih =>
      have hfirst (hw : written) : program.Written := hprograms hw program List.mem_cons_self
      obtain ⟨q, hpath, hq, hscope, hstate, -⟩ := (ends_run tracing depth hp program hfirst).final
      obtain ⟨r, hpath', hr, hscope', hstate'⟩ := ih hq fun hw program hm =>
        hprograms hw program (List.mem_cons_of_mem _ hm)
      refine ⟨r, hpath.trans hpath', hr, hscope'.trans hscope, ?_⟩
      rw [hstate', hstate]
      rfl

theorem good_initial : Point.initial.Good written := by
  refine ⟨Point.sound_initial, fun _ => Heap.allBound_initial ?_ ?_ ?_ ?_⟩
  · intro ident name native
    exact Value.all_function.mpr trivial
  · intro text
    exact (Value.all_self rfl).mpr trivial
  · have hname : isIdentifier "Object" = true := by decide
    exact Value.all_object.mpr hname
  · have hname : isIdentifier "Prototype" = true := by decide
    exact Value.all_object.mpr hname

/-- Programs of any kind are run by moves, and whatever the value of one refers to is there. At all points
that moves lead to, parents are older than their children, the chain of every frame goes down to the root
or to the frame of an object, the frames of objects have no parent, and the present frame and whatever
bound values refer to is there. From one point to a later one, frames keep their parents, and names stay
in their frames in the order in which they came. -/
theorem runs_keep_frames_sound (tracing : Tracing) (depth : Nat) :
    (∀ p : Point, Point.initial.Path p → ∀ program, ∃ q : Point, p.Path q ∧ q.scope = p.scope ∧
      q.toState = finalState (run (.upTo tracing depth) program p.toState) ∧
      ∀ value, outcome (run (.upTo tracing depth) program p.toState) = .ok value → q.Knows value) ∧
    (∀ earlier later : List Node, ∃ p q : Point, Point.initial.Path p ∧ p.Path q ∧
      p.toState = runInTurn (.upTo tracing depth) earlier .initial ∧
      q.toState = runInTurn (.upTo tracing depth) later p.toState) ∧
    (∀ p q : Point, Point.initial.Path p → p.Path q → p.Sound ∧
      (∀ f, f < p.heap.size → ∃ last, p.heap.Ancestry f (p.heap.chain f) last ∧
        (p.heap.chain f).Pairwise (· > ·) ∧
        (last = Heap.rootFrame ∨ ∃ o ∈ p.objects, o.frame = last)) ∧
      p.Before q) := by
  refine ⟨?_, ?_, ?_⟩
  · intro p hpath program
    have hgood : p.Good False := ⟨hpath.sound Point.sound_initial, False.elim⟩
    obtain ⟨q, hpath', -, hscope, hstate, hvalue⟩ :=
      (ends_run tracing depth hgood program False.elim).final
    exact ⟨q, hpath', hscope, hstate, fun value hv => (hvalue value hv).1⟩
  · intro earlier later
    have hinitial : Point.initial.Good False := good_initial
    obtain ⟨p, hpath, hp, -, hstate⟩ := exists_runInTurn tracing depth hinitial earlier False.elim
    obtain ⟨q, hpath', -, -, hstate'⟩ := exists_runInTurn tracing depth hp later False.elim
    exact ⟨p, q, hpath, hpath', hstate, hstate'⟩
  · intro p q hpath hpath'
    have hs := hpath.sound Point.sound_initial
    exact ⟨hs, fun f hf => hs.chain hf, hpath'.before⟩

section Division

/-- What a host does if it is asked for a quotient with a zero below. -/
def zeroBelow : Fault :=
  .breakdown (.host "ZeroDivisionError" "division by zero")

/-- The quotient of two integers, for hosts that have none by zero. -/
def integerQuotient (a b : Int) : Except Fault Int :=
  if b = 0 then .error zeroBelow else .ok (a.tdiv b)

/-- The quotient of two decimals, for hosts that have no quotient of natural numbers by zero. Operands that
cannot be made whole numbers do not get there. -/
def decimalQuotient (a b : Decimal) : Eval Value :=
  match a.raised (-a.exponent), b.raised (-b.exponent) with
  | .ok _, .ok divisor =>
      if divisor.coefficient * Nat.pow 10 b.exponent.toNat = 0 then throw zeroBelow
      else ofDecimal (a.divide b)
  | _, _ => ofDecimal (a.divide b)

/-- Division with quotients that a host may refuse. -/
def divideOrRefuse (left right : Value) : Eval Value := do
  match ← numbers .divide left right with
  | .integers a b =>
      if b = 0 then
        let dividend ← ofExcept (displayInt a)
        raise (.divisionByZero (dividend ++ " / " ++ Numeral.ofInt b))
      return .int (← ofExcept (integerQuotient a b))
  | .decimals a b =>
      if b.coefficient = 0 then
        raise (.divisionByZero (a.scientific ++ " / " ++ b.scientific))
      decimalQuotient a b

theorem decimalQuotient_of_ne_zero {a b : Decimal} (hb : b.coefficient ≠ 0) :
    decimalQuotient a b = ofDecimal (a.divide b) := by
  unfold decimalQuotient
  split
  · next divisor _ hraised =>
      have hwork : b.Workable := by
        by_contra hwork
        rw [Decimal.raised_of_not_workable hwork] at hraised
        cases hraised
      rw [Decimal.raised_neg_exponent hwork] at hraised
      cases hraised
      have hpow : 0 < Nat.pow 10 b.exponent.toNat := Nat.pow_pos (by decide : 0 < 10)
      exact if_neg (Nat.mul_ne_zero hb (Nat.ne_of_gt hpow))
  · rfl

/-- No quotient is ever refused, as a zero divisor is an error of the language before. -/
theorem divide_eq_divideOrRefuse (left right : Value) : divide left right = divideOrRefuse left right := by
  refine bind_congr fun operands => ?_
  cases operands with
  | integers a b =>
      simp only
      split
      -- A step behind an error is not taken, so it does not matter what it would do.
      · exact bind_congr fun dividend => rfl
      · next hb =>
          rw [integerQuotient, if_neg hb]
          rfl
  | decimals a b =>
      simp only
      split
      · rfl
      · next hb => exact (decimalQuotient_of_ne_zero hb).symm

end Division

/-- Programs that were read from sources are run after others of this kind, which may have failed. The last
one gives a value whose parts all have a kind, or it ends with an error of the language that has a message,
with an endless recursion, with an integer that is too long to be written, or at a limit of decimals. No
error is about an operator or a target that a source cannot spell, and no quotient is refused for a zero
below it. -/
theorem written_programs_fail_ordinarily {rule : Parser.Rule} {source : String} {program : Node}
    (hprogram : Grammar.Yields rule source program) {earlier : List Node}
    (hearlier : ∀ node ∈ earlier, ∃ rule source, Grammar.Yields rule source node) (tracing : Tracing)
    (depth : Nat) :
    let before := runInTurn (.upTo tracing depth) earlier .initial
    let result := outcome (run (.upTo tracing depth) program before)
    ((∃ value kind, result = .ok value ∧ value.kind = .ok kind ∧
        value.All fun leaf => leaf.kind?.isSome = true) ∨
      (∃ e, result = .error (.error e) ∧ e.cause.message.defect? = none ∧
        (∀ operator, e.cause ≠ .unknownOperator operator) ∧ ∀ form, e.cause ≠ .notTarget form) ∨
      result = .error .endless ∨ result = .error (.breakdown .digitLimit) ∨
      ∃ limit, result = .error (.breakdown (.limit limit))) ∧
    ∀ left right, divide left right = divideOrRefuse left right := by
  intro before result
  refine ⟨?_, divide_eq_divideOrRefuse⟩
  have hinitial : Point.initial.Good True := good_initial
  obtain ⟨p, -, hp, -, hstate⟩ := exists_runInTurn tracing depth hinitial earlier fun _ node hnode => by
    obtain ⟨rule, source, hyields⟩ := hearlier node hnode
    exact ⟨rule, hyields.printable⟩
  have hends := ends_run tracing depth hp program fun _ => ⟨rule, hprogram.printable⟩
  have hresult : result = outcome (run (.upTo tracing depth) program p.toState) := by rw [hstate]; rfl
  rw [hresult]
  generalize run (.upTo tracing depth) program p.toState = r at hends
  cases hends with
  | @ok value _ _ _ _ hv =>
      obtain ⟨kind, hkind⟩ := (hv.2 trivial).exists_kind
      exact .inl ⟨value, kind, rfl, hkind, (hv.2 trivial).leaf_kind⟩
  | @error fault _ _ _ _ hf =>
      refine .inr ?_
      cases fault with
      | error e => exact .inl ⟨e, rfl, Cause.Ordinary.message (hf trivial)⟩
      | endless => exact .inr (.inl rfl)
      | breakdown reason =>
          rcases hf trivial with rfl | ⟨limit, rfl⟩
          · exact .inr (.inr (.inl rfl))
          · exact .inr (.inr (.inr ⟨limit, rfl⟩))

/-- A division by zero, after a program that declares a variable and then fails. -/
theorem written_programs_fail_ordinarily_division :
    let broken : Node := .source [.declare ⟨"x", some (.literal (.int 4))⟩, .perform (.name "y")]
    let program : Node :=
      .source [.perform (.binary .divide (.name "x") (.literal (.int 0)))]
    let before := runInTurn (.standard .silent) [broken] .initial
    let result := outcome (run (.standard .silent) program before)
    Grammar.Yields .source "LET x = 4; y;" broken ∧ Grammar.Yields .source "x / 0;" program ∧
      ((∃ value kind, result = .ok value ∧ value.kind = .ok kind ∧
          value.All fun leaf => leaf.kind?.isSome = true) ∨
        (∃ e, result = .error (.error e) ∧ e.cause.message.defect? = none ∧
          (∀ operator, e.cause ≠ .unknownOperator operator) ∧ ∀ form, e.cause ≠ .notTarget form) ∨
        result = .error .endless ∨ result = .error (.breakdown .digitLimit) ∨
        ∃ limit, result = .error (.breakdown (.limit limit))) := by
  intro broken program before result
  have hbroken : Grammar.Yields .source "LET x = 4; y;" broken := ⟨rfl, rfl⟩
  have hprogram : Grammar.Yields .source "x / 0;" program := ⟨rfl, rfl⟩
  have hearlier : ∀ node ∈ [broken], ∃ rule source, Grammar.Yields rule source node := by
    simpa using ⟨.source, _, hbroken⟩
  exact ⟨hbroken, hprogram,
    (written_programs_fail_ordinarily hprogram hearlier .silent maxDepth).1⟩

section Squarings

/-- The limit of decimals at which a run ended. -/
def limit? : Except Fault Value → Option Decimal.Limit
  | .error (.breakdown (.limit limit)) => some limit
  | _ => none

theorem eq_error_of_limit? {result : Except Fault Value} {limit : Decimal.Limit}
    (h : limit? result = some limit) : result = .error (.breakdown (.limit limit)) := by
  unfold limit? at h
  split at h
  · cases h
    rfl
  · cases h

/-- A large and a small decimal, each squared 43 times, and their product. -/
def squarings : Node :=
  .source [
    .declare ⟨"a", some (.literal (.decimal ⟨false, 1, 99999⟩))⟩,
    .declare ⟨"b", some (.literal (.decimal ⟨false, 1, -100000⟩))⟩,
    .loop "i" (.call "range" [.literal (.int 0), .literal (.int 43)]) [
      .assign (.name "a") (.binary .multiply (.name "a") (.name "a")),
      .assign (.name "b") (.binary .multiply (.name "b") (.name "b"))],
    .perform (.binary .multiply (.name "a") (.name "b"))]

/-- Both powers of ten and their product, `1E-8796093022208`, are within the range of decimals; but to work
out the product would take more digits than a decimal may have. -/
theorem squarings_exceed_precision :
    Grammar.Yields .source
      "LET a = 0.1e100000; LET b = 0.1e-99999; FOR i IN range(0, 43) DO a = a * a; b = b * b; END a * b;"
      squarings ∧
    outcome (run (.standard .off) squarings .initial) = .error (.breakdown (.limit .precision)) :=
  ⟨⟨rfl, rfl⟩, eq_error_of_limit? (by decide +kernel)⟩

end Squarings

end Eval

end ProtoScript
