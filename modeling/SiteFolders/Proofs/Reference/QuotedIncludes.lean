import SiteFolders.Proofs.Move.Phase
import SiteFolders.Proofs.Reference.Includes
import SiteFolders.Proofs.Reference.Places
import SiteFolders.Proofs.Text.QuotedStrings

/-!
# References in double quotes

The passes for what a script includes put the reference between double quotes as it is, whatever
quotes stood there before. Of the characters of a reference only those of the file's name can mean
something there, as the folders, the steps up and the number of a candidate are made of others. And
they mean something in the reference exactly if they do in the former name (`isVerbatim_reference`).
So the string stands for the reference exactly if the name could have been written between double
quotes as it is (`replace?_include`).
-/

namespace SiteFolders.Reference

open Move
open SiteFolders.Text

/-! ## Characters without a meaning in a string -/

/-- True of characters that never mean anything in a string, whatever comes after them. -/
def IsInert (c : Char) : Prop := c ≠ '"' ∧ c ≠ '$' ∧ c ≠ '\x7b'

instance (c : Char) : Decidable (IsInert c) := inferInstanceAs (Decidable (_ ∧ _ ∧ _))

/-- Texts of such characters only. -/
def AllInert (text : List Char) : Prop := ∀ c ∈ text, IsInert c

instance (text : List Char) : Decidable (AllInert text) := List.decidableBAll _ text

theorem IsInert.interpolates {c : Char} (h : IsInert c) (next : Char) :
    interpolates c next = false := by
  simp [Text.interpolates, h.2.1, h.2.2]

/-- An inert character that no name of a variable starts with means nothing after others, either. -/
theorem interpolates_inert {next : Char} (h : IsInert next) (hstart : startsVariable next = false)
    (c : Char) : interpolates c next = false := by
  simp [interpolates, h.2.1, h.2.2, hstart]

theorem isVerbatim_append_of_inert {front : List Char} (h : AllInert front) (text : List Char) :
    IsVerbatim (front ++ text) ↔ IsVerbatim text := by
  induction front with
  | nil => rfl
  | cons c front ih =>
    have hc := h c (by simp)
    have hhead : (front ++ text).head?.any (interpolates c) = false := by
      cases front ++ text with
      | nil => rfl
      | cons d rest => exact hc.interpolates d
    rw [List.cons_append, isVerbatim_cons, hhead, ih fun d hd => h d (List.mem_cons_of_mem c hd)]
    simp [hc.1]

theorem isVerbatim_of_inert {text : List Char} (h : AllInert text) : IsVerbatim text := by
  have happend := isVerbatim_append_of_inert h []
  rw [List.append_nil] at happend
  exact happend.2 isVerbatim_nil

/-- A text can be cut at such a character. -/
theorem isVerbatim_append_cons {c : Char} (hc : IsInert c) (hstart : startsVariable c = false)
    (front text : List Char) : IsVerbatim (front ++ c :: text) ↔ IsVerbatim front ∧ IsVerbatim text := by
  induction front with
  | nil =>
    have hsingle : AllInert [c] := by simp [AllInert, hc]
    simpa [isVerbatim_nil] using isVerbatim_append_of_inert hsingle text
  | cons d front ih =>
    have hhead : (front ++ c :: text).head?.any (interpolates d) =
        front.head?.any (interpolates d) := by
      cases front with
      | nil => simpa using interpolates_inert hc hstart d
      | cons e front => rfl
    rw [List.cons_append, isVerbatim_cons, isVerbatim_cons, ih, hhead]
    tauto

/-! ## Names and references -/

theorem interpolates_slashed (c next : Char) :
    interpolates (if c = '\\' then '/' else c) (if next = '\\' then '/' else next) =
      interpolates c next := by
  by_cases hc : c = '\\' <;> by_cases hnext : next = '\\'
  · subst hc hnext
    decide
  · subst hc
    simp [interpolates, hnext]
  · subst hnext
    simp [interpolates, hc, startsVariable]
  · rw [if_neg hc, if_neg hnext]

/-- Slashes and backslashes mean the same between characters that are not escaped. -/
theorem isVerbatim_slashed (text : List Char) : IsVerbatim (slashed text) ↔ IsVerbatim text := by
  induction text with
  | nil => rfl
  | cons c text ih =>
    have hquote : (if c = '\\' then '/' else c) ≠ '"' ↔ c ≠ '"' := by
      split
      · next hc => simp [hc]
      · rfl
    have hhead : (slashed text).head?.any (interpolates (if c = '\\' then '/' else c)) =
        text.head?.any (interpolates c) := by
      cases text with
      | nil => rfl
      | cons d text => exact interpolates_slashed c d
    have hcons : slashed (c :: text) = (if c = '\\' then '/' else c) :: slashed text := rfl
    rw [hcons, isVerbatim_cons, isVerbatim_cons, hquote, hhead, ih]

/-- The number of a candidate is put between a dash and the dot or the end. -/
theorem isVerbatim_candidate (name : String) (k : Nat) :
    IsVerbatim (candidate name k).toList ↔ IsVerbatim name.toList := by
  rcases toList_candidate name k with hsame | ⟨stem, digits, tail, hname, -, htail, -, hdigits, hcand⟩
  · rw [hsame]
  · have hinert : AllInert digits := by
      intro c hc
      have hdigit := hdigits c hc
      refine ⟨?_, ?_, ?_⟩ <;> (rintro rfl; exact absurd hdigit (by decide))
    rw [hcand, hname, isVerbatim_append_cons (by decide) (by decide),
      isVerbatim_append_of_inert hinert]
    rcases htail with rfl | ⟨extension, rfl⟩
    · simp [isVerbatim_nil]
    · have hdot : AllInert ['.'] := by decide
      rw [isVerbatim_append_cons (by decide) (by decide), ← isVerbatim_append_of_inert hdot extension,
        List.singleton_append]

/-- Steps up mean nothing in a string. -/
theorem allInert_ups (ups : Nat) : AllInert (List.replicate ups "../".toList).flatten := by
  intro c hc
  have hstep : AllInert "../".toList := by decide
  obtain ⟨step, hmem, hc⟩ := List.mem_flatten.1 hc
  exact hstep c (List.eq_of_mem_replicate hmem ▸ hc)

section

variable {root : Path} {file : Moved} (hname : IsName file.oldName) {c : Category} {k : Nat}
  (htarget : file.target = (root.join c.folder).join (candidate file.oldName k))
  {below : List String} (hbelow : ∀ n ∈ below, IsName n)

theorem no_backslash_reference (file : Moved) (dir : Path) : '\\' ∉ file.reference dir :=
  Path.no_backslash_withSlashes _

include hname htarget hbelow

/-- From below the root one goes up, and then down to the folder and the file or only to the file. From
below the file itself one only goes up. -/
theorem reference_eq_slashed : ∃ ups ns, file.reference (root.joinAll below) =
      slashed (Path.stepText ups ns).toList ∧
    ([c.folder, candidate file.oldName k] <+: below ∧ ns = [] ∨
      ¬ [c.folder, candidate file.oldName k] <+: below ∧
        (ns = [candidate file.oldName k] ∨ ns = [c.folder, candidate file.oldName k])) := by
  have hnames : ∀ n ∈ [c.folder, candidate file.oldName k], IsName n := by
    simp [isName_folder c, isName_candidate hname k]
  obtain ⟨same, ns, base, hns, hbase, habove, hrelative⟩ :=
    Path.relativeTo?_joinAll hnames hbelow root
  refine ⟨base.length, ns, ?_, ?_⟩
  · have hto : root.joinAll [c.folder, candidate file.oldName k] = file.target := htarget.symm
    rw [hto] at hrelative
    rw [Moved.reference, Path.reference, hrelative, Option.getD_some, Path.withSlashes,
      String.toList_ofList]
    rfl
  · by_cases hinside : [c.folder, candidate file.oldName k] <+: below
    · exact Or.inl ⟨hinside, habove hinside⟩
    · -- at least the new name is left
      refine Or.inr ⟨hinside, ?_⟩
      rcases same with _ | ⟨s, _ | ⟨t, same⟩⟩
      · exact Or.inr hns.symm
      · exact Or.inl (List.cons.inj hns).2.symm
      · obtain ⟨rfl, rfl, hnil⟩ : c.folder = s ∧ candidate file.oldName k = t ∧ [] = same ++ ns := by
          simpa using hns
        obtain ⟨rfl, rfl⟩ := List.append_eq_nil_iff.1 hnil.symm
        exact absurd ⟨base, hbase.symm⟩ hinside

/-- The reference to a file from below the root means something in a string exactly if the former
name does, unless the text is below the file itself. -/
theorem isVerbatim_reference : IsVerbatim (file.reference (root.joinAll below)) ↔
    IsVerbatim file.oldName.toList ∨ [c.folder, candidate file.oldName k] <+: below := by
  have hfolder : AllInert c.folder.toList := by cases c <;> decide
  obtain ⟨ups, ns, hreference, ⟨hinside, rfl⟩ | ⟨hinside, hns⟩⟩ :=
    reference_eq_slashed hname htarget hbelow
  · rw [hreference, isVerbatim_slashed]
    refine iff_of_true ?_ (Or.inr hinside)
    cases ups with
    | zero => exact isVerbatim_nil
    | succ ups =>
      rw [Path.toList_stepText_succ, isVerbatim_append_of_inert (allInert_ups ups)]
      decide
  · have hne : ns ≠ [] := by rcases hns with rfl | rfl <;> simp
    rw [hreference, isVerbatim_slashed, Path.toList_stepText _ hne,
      isVerbatim_append_of_inert (allInert_ups ups)]
    simp only [hinside, or_false]
    rcases hns with rfl | rfl
    · simpa using isVerbatim_candidate file.oldName k
    · have htext : ("/".intercalate [c.folder, candidate file.oldName k]).toList =
          c.folder.toList ++ '/' :: (candidate file.oldName k).toList := by simp
      rw [htext, isVerbatim_append_cons (by decide) (by decide), isVerbatim_candidate]
      exact and_iff_right (isVerbatim_of_inert hfolder)

end

/-! ## What the passes write -/

/-- What is written between the keyword and the opening quote. -/
def Style.beforeQuote : Style → List Char
  | .delimited => []
  | .call => ['(']
  | .statement => [' ']

/-- What is written behind the closing quote. -/
def Style.behindQuote : Style → List Char
  | .call => [')']
  | _ => []

theorem Pass.IsInclude.render {pass : Pass} (hpass : pass.IsInclude) (hit : Hit)
    (reference : List Char) : pass.style.render hit reference =
      (hit.opening ++ pass.style.beforeQuote) ++
        '"' :: (reference ++ '"' :: pass.style.behindQuote) := by
  rcases hpass with rfl | rfl <;>
    simp [Style.render, Style.beforeQuote, Style.behindQuote, Pass.phpIncludeCall,
      Pass.phpIncludeStatement]

/-- Where a text includes a file that has come to a folder of a root, the pass writes a string that,
read as PHP reads it, stands for the reference and ends with the second quote that is written, exactly
if the former name could stand in a string as it is, or if the text is below the file. -/
theorem replace?_include {pass : Pass} (hpass : pass.IsInclude) {root : Path} {file : Moved}
    (hname : IsName file.oldName) {c : Category} {k : Nat}
    (htarget : file.target = (root.join c.folder).join (candidate file.oldName k))
    {below : List String} (hbelow : ∀ n ∈ below, IsName n) {text : List Char}
    {front back : List Piece} {hit : Hit} {mention : List Char}
    (hcut : cut (pass.mention? file.oldName.toList) text =
      front ++ .mention hit mention :: back) :
    let reference := file.reference (root.joinAll below)
    let before := front.flatMap (Piece.write pass.style reference) ++ hit.opening ++
      pass.style.beforeQuote
    let after := pass.style.behindQuote ++ back.flatMap (Piece.write pass.style reference)
    pass.replace? file.oldName.toList reference text =
      some (before ++ '"' :: (reference ++ '"' :: after)) ∧
    (readString (reference ++ '"' :: after) = some (bytesOf reference, after) ↔
      IsVerbatim file.oldName.toList ∨ [c.folder, candidate file.oldName k] <+: below) := by
  intro reference before after
  constructor
  · have hmention : (front ++ .mention hit mention :: back).any Piece.isMention = true := by
      simp [Piece.isMention]
    unfold Pass.replace?
    rw [hcut, if_pos hmention, List.flatMap_append, List.flatMap_cons, Piece.write, hpass.render]
    simp [before, after]
  · rw [readString_iff (no_backslash_reference file _)]
    exact isVerbatim_reference hname htarget hbelow

/-- A page that includes a file of its own folder. -/
def navText : List Char := "include('./nav.php');".toList

/-- The file has moved. -/
def navFile : Moved := ⟨"nav.php", "includes/nav.php", ⟨"/site/includes/nav.php"⟩⟩

theorem cut_navText : cut (Pass.phpIncludeCall.mention? "nav.php".toList) navText =
    [] ++ .mention ⟨"include".toList, [], 20, some ';'⟩ "include('./nav.php')".toList ::
      [.kept ';'] := by
  have hfind : Pass.phpIncludeCall.mention? "nav.php".toList navText =
      some ⟨"include".toList, [], 20, some ';'⟩ := by decide +kernel
  have hend : Pass.phpIncludeCall.mention? "nav.php".toList [';'] = none := by decide +kernel
  have hrest : navText.drop 20 = [';'] := by decide
  rw [cut_of_find (by decide) (by decide) hfind, hrest, cut_of_none hend, cut]
  rfl

/-- The string in the text stands for the way to the file. -/
theorem replace?_include_of_navFile :
    Pass.phpIncludeCall.replace? "nav.php".toList
        (navFile.reference ((Path.mk "/site").joinAll ["pages"])) navText =
      some "include(\"../includes/nav.php\");".toList ∧
    readString "../includes/nav.php\");".toList =
      some (bytesOf "../includes/nav.php".toList, ");".toList) := by
  have hreference : navFile.reference ((Path.mk "/site").joinAll ["pages"]) =
      "../includes/nav.php".toList := by decide +kernel
  have hname : IsName navFile.oldName := by decide +kernel
  have htarget : navFile.target = ((Path.mk "/site").join Category.includes.folder).join
      (candidate navFile.oldName 0) := by decide +kernel
  have hbelow : ∀ n ∈ ["pages"], IsName n := by decide +kernel
  have hverbatim : IsVerbatim navFile.oldName.toList := by decide +kernel
  obtain ⟨hreplace, hread⟩ := replace?_include (Or.inl rfl) hname htarget hbelow cut_navText
  have hvalue := hread.2 (Or.inl hverbatim)
  rw [hreference] at hreplace hvalue ⊢
  exact ⟨hreplace, hvalue⟩

/-! ## A name with a variable in it -/

/-- A file with a dollar sign in its name that has moved. -/
def dollarFile : Moved := ⟨"inc_$db.php", "includes/inc_$db.php", ⟨"/site/includes/inc_$db.php"⟩⟩

/-- The string that is written has no value of its own, though the one that stood there named the
file. With the dollar sign escaped it would stand for the reference. -/
theorem include_interpolates :
    IsName dollarFile.oldName ∧
    dollarFile.target = ((Path.mk "/site").join Category.includes.folder).join
      (candidate dollarFile.oldName 0) ∧
    (cut (Pass.phpIncludeStatement.mention? dollarFile.oldName.toList)
      "include 'inc_$db.php';".toList).any Piece.isMention = true ∧
    dollarFile.reference ⟨"/site"⟩ = "includes/inc_$db.php".toList ∧
    Pass.phpIncludeStatement.replace? dollarFile.oldName.toList (dollarFile.reference ⟨"/site"⟩)
      "include 'inc_$db.php';".toList = some "include \"includes/inc_$db.php\";".toList ∧
    readString "includes/inc_$db.php\";".toList = none ∧
    readString "includes/inc_\\$db.php\";".toList =
      some (bytesOf "includes/inc_$db.php".toList, [';']) := by
  have hescaped : "includes/inc_\\$db.php\";".toList =
      withEscapes "includes/inc_$db.php".toList ++ ['"', ';'] := by decide +kernel
  refine ⟨by decide +kernel, by decide +kernel, by decide +kernel, by decide +kernel,
    by decide +kernel, by decide +kernel, ?_⟩
  rw [hescaped]
  exact readString_withEscapes _ _

end SiteFolders.Reference
