import SiteFolders.Proofs.Reference.Current
import SiteFolders.Proofs.Reference.LetterCase

/-!
# Updating twice

A pass that has been applied leaves only mentions that are as they would be written anew
(`allCurrent_write`), and the passes that come after it keep that so (`AllCurrent.write`). So all
mentions are current after an update (`allCurrent_update`), and a second one finds nothing that it
would write in another way (`update_update`), as long as names are words and no file is named by the
reference to another one.
-/

namespace SiteFolders.Reference

open SiteFolders.Text Regex

/-! ## One pass -/

section

variable {pass : Pass} {name reference : List Char}

theorem write_of_none {c : Char} {rest : List Char} (h : pass.mention? name (c :: rest) = none) :
    pass.write name reference (c :: rest) = c :: pass.write name reference rest := by
  rw [Pass.write, cut_of_none h]
  rfl

/-- Where a text starts with a mention, it is written anew, and the rest of the text on its own. -/
theorem write_of_some (hpass : pass ∈ Pass.all) (reference : List Char) {text : List Char}
    {hit : Hit} (h : pass.mention? name text = some hit) :
    ∃ p : Parts, p.text = text ∧ IsMention pass name p ∧ p.rest.length < text.length ∧
      pass.write name reference text =
        (p.renew pass.style reference).mentionText ++ pass.write name reference p.rest := by
  obtain ⟨p, rfl, rfl, hreads, hahead⟩ := exists_parts hpass h
  have hmention : IsMention pass name p := ⟨hreads, hahead⟩
  obtain ⟨u, d, hfront, -⟩ := hmention.front_last hpass
  have hlen : (p.hit pass).length = p.mentionText.length := by
    simp [Parts.hit, Parts.mentionText, Nat.add_assoc]
  have hpos : 0 < p.mentionText.length := by
    have hsplit : p.mentionText = p.front ++ (p.word ++ p.closing) := by
      simp [Parts.mentionText, Parts.front, Parts.word]
    rw [hsplit, hfront]
    simp only [List.length_append, List.length_cons]
    omega
  have hsplit := p.text_eq_mentionText
  refine ⟨p, rfl, hmention, ?_, ?_⟩
  · rw [hsplit, List.length_append]
    omega
  · have hne : p.text ≠ [] := by
      intro hnil
      rw [hnil] at hsplit
      simp [(List.append_eq_nil_iff.1 hsplit.symm).1] at hpos
    have hdrop : p.text.drop (p.hit pass).length = p.rest := by
      rw [hlen, hsplit, List.drop_left]
    rw [Pass.write, cut_of_find hne (by omega) h, hdrop, List.flatMap_cons, Piece.write,
      render_eq hpass hreads]
    rfl

/-- A text is written by going on after a character that is kept or after a mention that is written
anew, so what one step takes from the text read so far to the text written so far is so for the
whole of it. -/
theorem write_induction (hpass : pass ∈ Pass.all) {motive : List Char → List Char → Prop}
    (kept : ∀ a c rest, pass.mention? name (c :: rest) = none → motive a (c :: rest) →
      motive (a ++ [c]) rest)
    (mention : ∀ a p, IsMention pass name p → motive a p.text →
      motive (a ++ (p.renew pass.style reference).mentionText) p.rest) :
    ∀ {z a : List Char}, motive a z → motive (a ++ pass.write name reference z) []
  | [], a, h => by
    have hnil : pass.write name reference [] = [] := by simp [Pass.write, cut]
    rw [hnil, List.append_nil]
    exact h
  | c :: rest, a, h => by
    cases hfind : pass.mention? name (c :: rest) with
    | none =>
      have hrest := write_induction hpass kept mention (kept a c rest hfind h)
      rw [write_of_none hfind, List.append_cons]
      exact hrest
    | some hit =>
      obtain ⟨p, htext, hmention, hlen, hwrite⟩ := write_of_some hpass reference hfind
      rw [← htext] at h
      have hrest := write_induction hpass kept mention (mention a p hmention h)
      rw [hwrite, ← List.append_assoc]
      exact hrest
termination_by z => z.length
decreasing_by
  · exact Nat.lt_add_one rest.length
  · exact hlen

/-- A pass keeps current what is, as long as no other name is read in the reference. -/
theorem AllCurrent.write (hpass : pass ∈ Pass.all) (hsteady : Steady name reference) {other : Pass}
    (hother : other ∈ Pass.all) {name' reference' : List Char} (hname' : IsWord name')
    (hsame : (∃ ld m, reference = ld ++ m ∧ Matches lead ld ∧ Spelled name' m) →
      name' = name ∧ reference' = reference) {text : List Char}
    (h : AllCurrent other name' reference' text) :
    AllCurrent other name' reference' (pass.write name reference text) := by
  have hall := @write_induction pass name reference hpass
    (fun a z => AllCurrent other name' reference' (a ++ z))
    (fun a c rest _ hcurrent => by simpa using hcurrent)
    (fun a p hmention hcurrent => by
      have hrenew := hcurrent.renew hpass hother hsteady hname' hsame hmention
      rwa [Parts.text_eq_mentionText, ← List.append_assoc] at hrenew)
    text [] h
  simpa using hall

/-- A pass leaves nothing that it would write in another way. -/
theorem allCurrent_write (hpass : pass ∈ Pass.all) (hsteady : Steady name reference)
    (text : List Char) : AllCurrent pass name reference (pass.write name reference text) := by
  have hall := @write_induction pass name reference hpass
    (fun a z => CurrentUpTo a.length pass name reference (a ++ z)) ?_ ?_ text []
    (fun b p _ hlt => absurd hlt (by simp))
  · intro b p htext hmention
    refine hall b p (by simpa using htext) ?_ hmention
    obtain ⟨u, d, hfront, -⟩ := hmention.front_last hpass
    rw [List.nil_append, htext, Parts.text_eq, hfront]
    simp only [List.length_append, List.length_cons]
    omega
  · -- no mention starts with the character that is kept
    intro a c rest hnone hcurrent b p htext hlt hmention
    rw [List.append_assoc] at htext
    rcases Nat.lt_or_ge b.length a.length with hbefore | hafter
    · exact hcurrent b p htext hbefore hmention
    · have hlen : a.length = b.length := by
        simp only [List.length_append, List.length_cons, List.length_nil] at hlt
        omega
      obtain ⟨rfl, hrest⟩ := List.append_inj htext hlen
      have hfound := mention?_ne_none hpass hsteady.isWord.ne_nil hsteady.startsName
        hmention.toReads hmention.ahead
      rw [← hrest] at hfound
      exact absurd hnone hfound
  · intro a p hmention hcurrent
    have hrenew := hcurrent.renew hpass hsteady.isWord hsteady.isWord_reference hmention
    rwa [Parts.text_eq_mentionText, ← List.append_assoc] at hrenew

/-- What is current is not changed by its pass. -/
theorem write_of_allCurrent (hpass : pass ∈ Pass.all) {text : List Char}
    (h : AllCurrent pass name reference text) : pass.write name reference text = text := by
  have hall := @write_induction pass name reference hpass (fun a z => a ++ z = text) ?_ ?_ text []
    (List.nil_append text)
  · simpa using hall
  · intro a c rest _ htext
    simpa using htext
  · intro a p hmention htext
    have hcurrent := h a p htext.symm hmention
    have hsame : (p.renew pass.style reference).mentionText = p.mentionText := by
      simp [Parts.mentionText, Parts.renew, hcurrent.bridge, hcurrent.closing, ← hcurrent.word,
        Parts.word]
    rw [hsame, List.append_assoc, ← Parts.text_eq_mentionText, htext]

end

/-! ## All passes for all moved files -/

/-- The passes of an update with the files that they are for, in the order in which they are
applied. -/
def updateSteps (loose : Bool) (moved : List Moved) : List (Pass × Moved) :=
  (inOrder moved).flatMap fun file => (passes loose).map fun pass => (pass, file)

/-- The text after one step of an update. -/
def writeStep (dir : Path) (text : List Char) (step : Pass × Moved) : List Char :=
  step.1.write step.2.oldName.toList (step.2.reference dir) text

theorem text_update_steps (loose : Bool) (moved : List Moved) (dir : Path) (text : List Char) :
    (update loose moved dir text).text = (updateSteps loose moved).foldl (writeStep dir) text := by
  rw [text_update, updateSteps, List.foldl_flatMap]
  simp only [List.foldl_map]
  rfl

theorem mem_updateSteps_iff {loose : Bool} {moved : List Moved} {pass : Pass} {file : Moved} :
    (pass, file) ∈ updateSteps loose moved ↔ pass ∈ passes loose ∧ file ∈ moved := by
  simp only [updateSteps, inOrder, List.mem_flatMap, List.mem_map, List.mem_mergeSort]
  constructor
  · rintro ⟨m, hm, p, hp, heq⟩
    obtain ⟨rfl, rfl⟩ := Prod.mk.inj heq
    exact ⟨hp, hm⟩
  · rintro ⟨hpass, hfile⟩
    exact ⟨file, hfile, pass, hpass, rfl⟩

/-- All mentions that a step is for are current. -/
def StepDone (dir : Path) (text : List Char) (step : Pass × Moved) : Prop :=
  AllCurrent step.1 step.2.oldName.toList (step.2.reference dir) text

section

variable {moved : List Moved} {dir : Path}
  (hsteady : ∀ m ∈ moved, Steady m.oldName.toList (m.reference dir))
  (hforeign : ∀ m ∈ moved, ∀ n ∈ moved, n.NamedBy (m.reference dir) → n = m)
include hsteady hforeign

/-- Each step is done after it is taken, and stays so. -/
theorem stepDone_foldl : ∀ {steps done : List (Pass × Moved)} {text : List Char},
    (∀ step ∈ done ++ steps, step.1 ∈ Pass.all ∧ step.2 ∈ moved) →
    (∀ step ∈ done, StepDone dir text step) →
    ∀ step ∈ done ++ steps, StepDone dir (steps.foldl (writeStep dir) text) step
  | [], done, text, _, hdone => by simpa using hdone
  | step :: steps, done, text, hmem, hdone => by
    have hassoc : done ++ step :: steps = (done ++ [step]) ++ steps := by simp
    rw [hassoc] at hmem ⊢
    refine stepDone_foldl hmem fun other hother => ?_
    obtain ⟨hpass, hfile⟩ := hmem step (by simp)
    obtain ⟨hotherPass, hotherFile⟩ := hmem other (List.mem_append_left _ hother)
    have hgood := hsteady step.2 hfile
    rcases List.mem_append.1 hother with hother | hother
    · refine (hdone other hother).write hpass hgood hotherPass (hsteady _ hotherFile).isWord ?_
      intro hnamed
      rw [hforeign _ hfile _ hotherFile hnamed]
      exact ⟨rfl, rfl⟩
    · obtain rfl := List.mem_singleton.1 hother
      exact allCurrent_write hpass hgood text

omit hsteady hforeign in
theorem foldl_writeStep_eq_self {steps : List (Pass × Moved)} {text : List Char}
    (hpass : ∀ step ∈ steps, step.1 ∈ Pass.all) (h : ∀ step ∈ steps, StepDone dir text step) :
    steps.foldl (writeStep dir) text = text := by
  induction steps with
  | nil => rfl
  | cons step steps ih =>
    have hself : writeStep dir text step = text :=
      write_of_allCurrent (hpass step (by simp)) (h step (by simp))
    rw [List.foldl_cons, hself]
    exact ih (fun s hs => hpass s (List.mem_cons_of_mem _ hs))
      fun s hs => h s (List.mem_cons_of_mem _ hs)

/-- All mentions that are found in an updated text are current. -/
theorem allCurrent_update (loose : Bool) (text : List Char) {pass : Pass}
    (hpass : pass ∈ passes loose) {m : Moved} (hm : m ∈ moved) :
    AllCurrent pass m.oldName.toList (m.reference dir) (update loose moved dir text).text := by
  have hmem : ∀ step ∈ [] ++ updateSteps loose moved, step.1 ∈ Pass.all ∧ step.2 ∈ moved := by
    intro step hstep
    obtain ⟨hp, hfile⟩ := mem_updateSteps_iff.1 hstep
    exact ⟨passes_subset loose step.1 hp, hfile⟩
  rw [text_update_steps]
  exact stepDone_foldl hsteady hforeign hmem (List.forall_mem_nil _) (pass, m)
    (mem_updateSteps_iff.2 ⟨hpass, hm⟩)

/-- A second update of a text leaves it as it is. -/
theorem update_update (loose : Bool) (text : List Char) :
    (update loose moved dir (update loose moved dir text).text).text =
      (update loose moved dir text).text := by
  rw [text_update_steps _ _ _ (update loose moved dir text).text]
  refine foldl_writeStep_eq_self (fun step hstep => ?_) fun step hstep => ?_
  · exact passes_subset loose step.1 (mem_updateSteps_iff.1 hstep).1
  · obtain ⟨hpass, hfile⟩ := mem_updateSteps_iff.1 hstep
    exact allCurrent_update hsteady hforeign loose text hpass hfile

end

end SiteFolders.Reference
