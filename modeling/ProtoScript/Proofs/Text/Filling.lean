import Mathlib.Data.List.Forall2
import ProtoScript.Text.Template

/-!
# Templates and their snippets

How a template is read does not depend on what its snippets say. Two fillings of one template have the same
defect, or they differ as the snippets do; and what is told of a defect is a piece of the template.
-/

namespace ProtoScript

/-- Two results fail alike, and what they give is related. -/
inductive Matched {ε α β : Type} (R : α → β → Prop) (F : ε → Prop) : Except ε α → Except ε β → Prop
  | ok {a : α} {b : β} (h : R a b) : Matched R F (.ok a) (.ok b)
  | error {e : ε} (h : F e) : Matched R F (.error e) (.error e)

theorem Matched.bind {ε α β γ δ : Type} {R : α → β → Prop} {S : γ → δ → Prop} {F : ε → Prop}
    {x : Except ε α} {y : Except ε β} {k : α → Except ε γ} {l : β → Except ε δ} (h : Matched R F x y)
    (hkl : ∀ a b, R a b → Matched S F (k a) (l b)) : Matched S F (x >>= k) (y >>= l) := by
  cases h with
  | ok h => exact hkl _ _ h
  | error h => exact .error h

namespace Text

/-- The characters of a template that a defect tells of. -/
def Defect.told : Defect → List Char
  | .named name => name.toList
  | _ => []

/-- The characters of a slot that were read so far. -/
def Mode.read : Mode → List Char
  | .plain => []
  | .name read _ => read
  | .conversion read | .converted read | .format read .. => read

/-- A relation of texts that is built up piece by piece; the characters of the template are related to
themselves. -/
structure Piecewise (P : Char → Prop) (R : List Char → List Char → Prop) : Prop where
  nil : R [] []
  cons {c : Char} {text text' : List Char} (hc : P c) (h : R text text') : R (c :: text) (c :: text')
  append {a a' b b' : List Char} (ha : R a a') (hb : R b b') : R (a ++ b) (a' ++ b')

section Filling
variable {P : Char → Prop} {R : List Char → List Char → Prop} {snippets snippets' : List String}

theorem matched_chooseSlot (numbering : Numbering) {head : List Char} (hhead : ∀ c ∈ head, P c) :
    Matched Eq (fun defect : Defect => ∀ c ∈ defect.told, P c) (chooseSlot numbering head)
      (chooseSlot numbering head) := by
  unfold chooseSlot
  split
  · cases numbering with
    | undecided | automatic next => exact .ok rfl
    | explicit => exact .error (by simp [Defect.told])
  split
  · split
    · exact .error (by simp [Defect.told])
    · cases numbering with
      | undecided | explicit => exact .ok rfl
      | automatic next => exact .error (by simp [Defect.told])
  · exact .error (by simpa [Defect.told] using hhead)

theorem matched_chooseSnippet
    (hs : List.Forall₂ (fun s s' : String => R s.toList s'.toList) snippets snippets')
    (numbering : Numbering) {name : List Char} (hname : ∀ c ∈ name, P c) (bare : Bool) :
    Matched (fun chosen chosen' : String × Numbering =>
        R chosen.1.toList chosen'.1.toList ∧ chosen.2 = chosen'.2)
      (fun defect : Defect => ∀ c ∈ defect.told, P c) (chooseSnippet snippets numbering name bare)
      (chooseSnippet snippets' numbering name bare) := by
  have hhead : ∀ c ∈ slotHead name, P c := fun c hc => hname c ((List.takeWhile_sublist _).subset hc)
  refine (matched_chooseSlot numbering hhead).bind ?_
  rintro ⟨slot, numbering⟩ _ rfl
  simp only
  rcases Nat.lt_or_ge slot snippets.length with hlt | hge
  · have hlt' : slot < snippets'.length := hs.length_eq ▸ hlt
    rw [List.getElem?_eq_getElem hlt, List.getElem?_eq_getElem hlt']
    simp only
    split
    · exact .ok ⟨hs.get hlt hlt', rfl⟩
    · exact .error (by simp [Defect.told])
  · rw [List.getElem?_eq_none hge, List.getElem?_eq_none (hs.length_eq ▸ hge)]
    exact .error (by simp [Defect.told])

/-- A character of the template in front of two fillings. -/
theorem matched_keep (hR : Piecewise P R) {c : Char} (hc : P c) {x y : Except Defect (List Char)}
    (h : Matched R (fun defect : Defect => ∀ c ∈ defect.told, P c) x y) :
    Matched R (fun defect : Defect => ∀ c ∈ defect.told, P c) (return c :: (← x)) (return c :: (← y)) :=
  h.bind fun _ _ h => .ok (hR.cons hc h)

/-- The end of a slot: its snippet in front of what is left. -/
theorem matched_slot (hR : Piecewise P R)
    (hs : List.Forall₂ (fun s s' : String => R s.toList s'.toList) snippets snippets')
    (numbering : Numbering) {name : List Char} (hname : ∀ c ∈ name, P c) (bare : Bool)
    {rest : List Char} (hrest : ∀ numbering,
      Matched R (fun defect : Defect => ∀ c ∈ defect.told, P c)
        (fillSlots snippets .plain numbering rest) (fillSlots snippets' .plain numbering rest)) :
    Matched R (fun defect : Defect => ∀ c ∈ defect.told, P c)
      (do
        let (snippet, numbering) ← chooseSnippet snippets numbering name bare
        return snippet.toList ++ (← fillSlots snippets .plain numbering rest))
      (do
        let (snippet, numbering) ← chooseSnippet snippets' numbering name bare
        return snippet.toList ++ (← fillSlots snippets' .plain numbering rest)) := by
  refine (matched_chooseSnippet hs numbering hname bare).bind ?_
  rintro ⟨snippet, numbering⟩ ⟨snippet', _⟩ ⟨hsnippet, rfl⟩
  exact (hrest numbering).bind fun _ _ h => .ok (hR.append hsnippet h)

theorem matched_fillSlots (hR : Piecewise P R)
    (hs : List.Forall₂ (fun s s' : String => R s.toList s'.toList) snippets snippets')
    (mode : Mode) (hmode : ∀ c ∈ mode.read, P c) (numbering : Numbering) {template : List Char}
    (ht : ∀ c ∈ template, P c) :
    Matched R (fun defect : Defect => ∀ c ∈ defect.told, P c)
      (fillSlots snippets mode numbering template) (fillSlots snippets' mode numbering template) := by
  have hnone : ∀ c ∈ Mode.plain.read, P c := by simp [Mode.read]
  fun_induction fillSlots snippets mode numbering template
  case case1 => exact .ok hR.nil
  -- A character of the template is kept.
  case case2 ih | case3 ih =>
      obtain ⟨hc, ht⟩ := List.forall_mem_cons.mp ht
      exact matched_keep hR hc (ih hnone (List.forall_mem_cons.mp ht).2)
  case case7 hopens hcloses hends hclose hopen ih =>
      obtain ⟨hc, ht⟩ := List.forall_mem_cons.mp ht
      rw [fillSlots.eq_7 snippets' _ _ _ hopens hcloses hends hclose hopen]
      exact matched_keep hR hc (ih hnone ht)
  -- A slot ends.
  case case10 ih =>
      refine matched_slot hR hs _ ?_ true fun numbering => ih numbering hnone (List.forall_mem_cons.mp ht).2
      exact fun c hc => hmode c (List.mem_reverse.mp hc)
  case case18 ih =>
      exact matched_slot hR hs _ hmode false fun numbering =>
        ih numbering hnone (List.forall_mem_cons.mp ht).2
  case case22 hend ih =>
      rw [fillSlots, if_pos hend]
      exact matched_slot hR hs _ hmode _ fun numbering => ih numbering hnone (List.forall_mem_cons.mp ht).2
  -- A slot goes on.
  case case6 hopens hends ih =>
      rw [fillSlots.eq_6 snippets' _ _ hopens hends]
      exact ih hnone (List.forall_mem_cons.mp ht).2
  case case9 ih =>
      obtain ⟨hc, ht⟩ := List.forall_mem_cons.mp ht
      exact ih (List.forall_mem_cons.mpr ⟨hc, hmode⟩) ht
  case case12 ih | case13 ih =>
      exact ih (fun c hc => hmode c (List.mem_reverse.mp hc)) (List.forall_mem_cons.mp ht).2
  case case14 hclose hopen hcolon hmark ih =>
      obtain ⟨hc, ht⟩ := List.forall_mem_cons.mp ht
      rw [fillSlots, if_neg hclose, if_neg hopen, if_neg hcolon, if_neg hmark]
      exact ih (List.forall_mem_cons.mpr ⟨hc, hmode⟩) ht
  case case16 ih | case19 ih =>
      exact ih hmode (List.forall_mem_cons.mp ht).2
  case case23 hdeep ih =>
      rw [fillSlots, if_neg hdeep, if_pos rfl]
      exact ih hmode (List.forall_mem_cons.mp ht).2
  case case24 hend hclose ih =>
      exact ih hmode (List.forall_mem_cons.mp ht).2
  case case25 hend hclose hopen ih =>
      rw [fillSlots, if_neg hend, if_neg hclose, if_neg hopen]
      exact ih hmode (List.forall_mem_cons.mp ht).2
  -- The template is wrong.
  case case4 | case8 | case11 | case15 | case17 | case21 => exact .error (by simp [Defect.told])
  case case5 hcloses =>
      rw [fillSlots.eq_5 snippets' _ _ hcloses]
      exact .error (by simp [Defect.told])
  case case20 hclose hcolon =>
      rw [fillSlots, if_neg hclose, if_neg hcolon]
      exact .error (by simp [Defect.told])

end Filling

end Text

end ProtoScript
