import SiteFolders.Category
import SiteFolders.Proofs.Move.Destination
import SiteFolders.Proofs.Reference.Values

/-!
# Plain names

Names of ASCII letters, digits, dots, dashes and underscores hold nothing that opens or closes a
mention. So in a value that is a plain name after leading segments only that name can be read, and a
reference to a plain file of a folder is read as a name at most where it is the bare name of the
file (`turns_update_of_plain`). A numbered candidate is longer than the name it stands for, so
whatever other name it may be the same as has been taken before.
-/

namespace SiteFolders

/-- The characters of plain names. -/
def IsPlainChar (c : Char) : Prop := c.isAlphanum = true ∨ c = '.' ∨ c = '-' ∨ c = '_'

instance (c : Char) : Decidable (IsPlainChar c) := inferInstanceAs (Decidable (_ ∨ _ ∨ _ ∨ _))

/-- Names of ASCII letters, digits, dots, dashes and underscores. -/
def IsPlain (name : String) : Prop := ∀ c ∈ name.toList, IsPlainChar c

instance (name : String) : Decidable (IsPlain name) := List.decidableBAll _ name.toList

namespace IsPlainChar

variable {c : Char} (h : IsPlainChar c)
include h

theorem toNat_cases : 0x2D ≤ c.toNat ∧ c.toNat ≤ 0x2E ∨ 0x30 ≤ c.toNat ∧ c.toNat ≤ 0x39 ∨
    0x41 ≤ c.toNat ∧ c.toNat ≤ 0x5A ∨ c.toNat = 0x5F ∨ 0x61 ≤ c.toNat ∧ c.toNat ≤ 0x7A := by
  have hval : c.val.toNat = c.toNat := rfl
  have hupper : c.isUpper = decide (c.val ≥ 'A'.val ∧ c.val ≤ 'Z'.val) := rfl
  have hlower : c.isLower = (c.val ≥ 'a'.val && c.val ≤ 'z'.val) := rfl
  have hdigit : c.isDigit = (c.val ≥ '0'.val && c.val ≤ '9'.val) := rfl
  have halpha : c.isAlphanum = (c.isUpper || c.isLower || c.isDigit) := rfl
  rcases h with h | rfl | rfl | rfl
  · simp only [halpha, hupper, hlower, hdigit, Bool.or_eq_true, Bool.and_eq_true,
      decide_eq_true_eq, ge_iff_le, UInt32.le_iff_toNat_le] at h
    simp at h
    omega
  all_goals decide

theorem ne_of_not {k : Char} (hk : ¬ IsPlainChar k) : c ≠ k := by
  rintro rfl
  exact hk h

theorem not_isBlank : Text.isBlank c = false := by
  have hc := h.toNat_cases
  simp [Text.isBlank]
  omega

end IsPlainChar

theorem utf8ByteSize_of_isPlain {name : String} (h : IsPlain name) :
    name.utf8ByteSize = name.toList.length := by
  obtain ⟨cs, rfl⟩ : ∃ cs, name = String.ofList cs := ⟨name.toList, String.ofList_toList.symm⟩
  unfold IsPlain at h
  rw [String.toList_ofList] at h ⊢
  induction cs with
  | nil => rfl
  | cons c cs ih =>
    have hc := (h c (by simp)).toNat_cases
    have hsize : c.utf8Size = 1 := by
      rw [Char.utf8Size_eq_one_iff, UInt32.le_iff_toNat_le]
      change c.toNat ≤ 127
      omega
    rw [String.ofList_cons, String.utf8ByteSize_append, String.utf8ByteSize_singleton, hsize,
      ih fun k hk => h k (List.mem_cons_of_mem _ hk), List.length_cons]
    omega

namespace Move

/-- Candidates for plain names are plain. -/
theorem isPlain_candidate {name : String} (h : IsPlain name) (k : Nat) :
    IsPlain (candidate name k) := by
  intro c hc
  rcases mem_of_mem_candidate hc with hc | rfl | hc
  · exact h c hc
  · exact Or.inr (Or.inr (Or.inl rfl))
  · exact Or.inl (by simp [Char.isAlphanum, hc])

/-- A candidate starts as the name does. -/
theorem head?_candidate {name : String} (hne : name ≠ "") (k : Nat) :
    (candidate name k).toList.head? = name.toList.head? := by
  rcases toList_candidate name k with hsame | ⟨stem, digits, tail, hname, hstem, -, -, -, hcand⟩
  · rw [hsame]
  · obtain ⟨c, cs, rfl⟩ := List.exists_cons_of_ne_nil (hstem hne)
    rw [hcand, hname]
    rfl

end Move

namespace Reference

open SiteFolders.Text Regex

/-- Characters of plain names open and close no mention. -/
theorem not_delimits_of_isPlainChar {c : Char} (h : IsPlainChar c) :
    ¬ Opens c ∧ closesLoose c = false := by
  have hquote : c ≠ '"' := h.ne_of_not (by decide)
  have happos : c ≠ '\x27' := h.ne_of_not (by decide)
  have hopen : c ≠ '(' := h.ne_of_not (by decide)
  have hclose : c ≠ ')' := h.ne_of_not (by decide)
  simp [Opens, IsQuote, closesLoose, hquote, happos, hopen, hclose, h.not_isBlank]

theorem plainValue_of_isPlain {name : String} (h : IsPlain name) : PlainValue name.toList :=
  fun c hc => not_delimits_of_isPlainChar (h c hc)

theorem matches_lead_ups (ups : Nat) : Matches lead (List.replicate ups "../".toList).flatten := by
  induction ups with
  | zero => exact .done
  | succ ups ih =>
    have hsegment : Matches segment "../".toList :=
      matches_alt_iff.2 (Or.inr (.seq (.one (by decide)) (.seq (.one (by decide)) (.one (by decide)))))
    rw [List.replicate_succ, List.flatten_cons]
    exact .round hsegment ih

/-- A plain value that ends in a plain name is held by its quotes. -/
theorem isValue_of_plain {q : Char} {value u : List Char} {name : String} (hq : IsQuote q)
    (hvalue : PlainValue value) (hend : value = u ++ name.toList) (hname : IsPlain name)
    (hne : name ≠ "") : IsValue q value := by
  refine ⟨fun hmem => (hvalue q hmem).1 (Or.inl hq), fun c hc => ?_⟩
  have hlist : name.toList ≠ [] := by simpa using hne
  rw [hend, List.getLast?_append_of_ne_nil _ hlist] at hc
  have hplain := hname c (List.mem_of_getLast? hc)
  exact ⟨hplain.ne_of_not (by decide), hplain.ne_of_not (by decide), hplain.not_isBlank⟩

theorem apart_of_isPlain {q : Char} {name : String} (hq : IsQuote q) (h : IsPlain name) :
    Apart q name.toList := by
  refine ⟨fun hmem => (plainValue_of_isPlain h q hmem).1 (Or.inl hq), fun hlast => ?_⟩
  exact absurd (h '=' (List.mem_of_getLast? hlast)) (by decide)

/-- A plain name that is no dot file. -/
structure IsOrdinary (name : String) : Prop where
  plain : IsPlain name
  ne_empty : name ≠ ""
  no_dot : name.toList.head? ≠ some '.'

theorem IsOrdinary.startsName {name : String} (h : IsOrdinary name) : StartsName name.toList := by
  refine ⟨h.no_dot, fun hslash => ?_⟩
  exact absurd (h.plain '/' (List.mem_of_head? hslash)) (by decide)

theorem IsOrdinary.candidate {name : String} (h : IsOrdinary name) (k : Nat) :
    IsOrdinary (Move.candidate name k) where
  plain := Move.isPlain_candidate h.plain k
  ne_empty := by
    intro hempty
    have hhead := Move.head?_candidate h.ne_empty k
    rw [hempty] at hhead
    exact h.ne_empty (by simpa using hhead.symm)
  no_dot := by
    rw [Move.head?_candidate h.ne_empty k]
    exact h.no_dot

theorem isOrdinary_folder (c : Category) : IsOrdinary c.folder := by
  cases c <;> exact ⟨by decide, by decide, by decide⟩

/-! ## References to ordinary files -/

/-- Files are taken by the length of their names, each of them once. -/
theorem exists_inOrder {moved : List Moved} {file : Moved} (hfile : file ∈ moved)
    (hdiff : moved.Pairwise fun a b => ¬ Spelled a.oldName.toList b.oldName.toList) :
    ∃ earlier later, inOrder moved = earlier ++ file :: later ∧
      (∀ other ∈ earlier ++ later, other ∈ moved ∧
        ¬ Spelled other.oldName.toList file.oldName.toList) ∧
      ∀ other ∈ later, other.oldName.utf8ByteSize ≤ file.oldName.utf8ByteSize := by
  have hperm : (inOrder moved).Perm moved := List.mergeSort_perm _ _
  have hsymm : ∀ {a b : Moved}, ¬ Spelled a.oldName.toList b.oldName.toList →
      ¬ Spelled b.oldName.toList a.oldName.toList := fun h h' => h h'.symm
  have hdiff' := hdiff.perm hperm.symm hsymm
  have hsorted : (inOrder moved).Pairwise fun a b =>
      b.oldName.utf8ByteSize ≤ a.oldName.utf8ByteSize := by
    have hle := @List.pairwise_mergeSort Moved
      (fun a b => decide (b.oldName.utf8ByteSize ≤ a.oldName.utf8ByteSize))
      (fun a b c hab hbc => by simp only [decide_eq_true_eq] at *; omega)
      (fun a b => by simp only [Bool.or_eq_true, decide_eq_true_eq]; omega) moved
    exact hle.imp fun h => by simpa using h
  -- sorting keeps the names apart, so the file splits the list in one place
  rcases List.append_of_mem (hperm.mem_iff.2 hfile) with ⟨earlier, later, hsplit⟩
  rw [hsplit] at hdiff' hsorted
  rcases List.pairwise_append.1 hdiff' with ⟨-, hlater, hcross⟩
  refine ⟨earlier, later, hsplit, fun other hother => ⟨?_, ?_⟩, ?_⟩
  · refine hperm.mem_iff.1 ?_
    rw [hsplit]
    rcases List.mem_append.1 hother with hmem | hmem <;> simp [hmem]
  · rcases List.mem_append.1 hother with hmem | hmem
    · exact hcross other hmem file (by simp)
    · exact hsymm ((List.pairwise_cons.1 hlater).1 other hmem)
  · exact (List.pairwise_cons.1 (List.pairwise_append.1 hsorted).2.1).1

/-- No name that is taken later than a file can be read in a reference to its candidate. -/
theorem not_standsIn_reference {file other : Moved} {ups k : Nat} {folder : String} {q : Char}
    {n reference : List Char} (hq : IsQuote q) (hfile : IsOrdinary file.oldName)
    (hother : IsOrdinary other.oldName) (hfolder : IsOrdinary folder)
    (hdiff : ¬ Spelled other.oldName.toList file.oldName.toList)
    (hsize : other.oldName.utf8ByteSize ≤ file.oldName.utf8ByteSize)
    (hreference : reference = (List.replicate ups "../".toList).flatten ++ n)
    (hn : n = (Move.candidate file.oldName k).toList ∨
      n = folder.toList ++ '/' :: (Move.candidate file.oldName k).toList)
    (hplain : PlainValue reference) : ¬ StandsIn other.oldName.toList (q :: (reference ++ [q])) := by
  intro hstands
  have hcandidate := hfile.candidate k
  rw [hreference] at hstands hplain
  have hstarts : StartsName n := by
    rcases hn with rfl | rfl
    · exact hcandidate.startsName
    · obtain ⟨c, cs, hcs⟩ := List.exists_cons_of_ne_nil
        (by simpa using hfolder.ne_empty : folder.toList ≠ [])
      have hstartsFolder := hfolder.startsName
      rw [hcs] at hstartsFolder ⊢
      exact hstartsFolder
  have hspelled := spelled_of_standsIn hq hplain (matches_lead_ups ups) hstarts
    hother.startsName hstands
  rcases hn with rfl | rfl
  · cases k with
    | zero => exact hdiff hspelled
    | succ k =>
      -- the candidate has a number, so it is longer than the names that are still to come
      have hlt := Move.lt_utf8ByteSize_candidate file.oldName k
      have hlen := hspelled.length_eq
      rw [← utf8ByteSize_of_isPlain hother.plain, ← utf8ByteSize_of_isPlain hcandidate.plain] at hlen
      omega
  · have hslash : '/' ∈ other.oldName.toList :=
      (hspelled.mem_iff (Or.inl (by decide))).1 (by simp)
    exact absurd (hother.plain '/' hslash) (by decide)

/-- Among ordinary files whose names differ in more than letter case, an update turns a name after
leading segments into the reference to its file. -/
theorem turns_update_of_ordinary {moved : List Moved} {file : Moved} {dir : Path}
    {kw ld n : List Char} {q : Char} {folder : String} {ups k : Nat} (loose : Bool)
    (hkey : Key kw) (hq : IsQuote q) (hfile : file ∈ moved)
    (hordinary : ∀ m ∈ moved, IsOrdinary m.oldName)
    (hdiff : moved.Pairwise fun a b => ¬ Spelled a.oldName.toList b.oldName.toList)
    (hld : Matches lead ld) (hfolder : IsOrdinary folder)
    (hreference : file.reference dir = (List.replicate ups "../".toList).flatten ++ n)
    (hn : n = (Move.candidate file.oldName k).toList ∨
      n = folder.toList ++ '/' :: (Move.candidate file.oldName k).toList) :
    Turns kw q (· = ld ++ file.oldName.toList) (· = file.reference dir)
      fun text => (update loose moved dir text).text := by
  -- longer names come first, so the file has others before it and behind it
  rcases exists_inOrder hfile hdiff with ⟨earlier, later, horder, hothers, hsize⟩
  have hname := hordinary file hfile
  have hcandidate := hname.candidate k
  have hplain : PlainValue (ld ++ file.oldName.toList) :=
    (plainValue_lead hld).append (plainValue_of_isPlain hname.plain)
  have hend : ∃ u, file.reference dir = u ++ (Move.candidate file.oldName k).toList := by
    rcases hn with rfl | rfl
    · exact ⟨_, hreference⟩
    · exact ⟨_, by rw [hreference, ← List.append_cons, ← List.append_assoc]⟩
  have hplainReference : PlainValue (file.reference dir) := by
    have hslash : PlainValue ['/'] := by decide
    have hn' : PlainValue n := by
      rcases hn with rfl | rfl
      · exact plainValue_of_isPlain hcandidate.plain
      · exact (plainValue_of_isPlain hfolder.plain).append
          (hslash.append (plainValue_of_isPlain hcandidate.plain))
    rw [hreference]
    exact (plainValue_lead (matches_lead_ups ups)).append hn'
  rcases hend with ⟨u, hu⟩
  refine turns_update loose horder hkey hq
    (fun other hother => apart_of_isPlain hq (hordinary other hother).plain)
    (isValue_of_plain hq hplain rfl hname.plain hname.ne_empty)
    (isValue_of_plain hq hplainReference hu hcandidate.plain hcandidate.ne_empty)
    ⟨ld, file.oldName.toList, rfl, hld, .refl _⟩ (onlyWhole_of_plain hplain hq)
    (onlyWhole_of_plain hplainReference hq) (fun other hother hstands => ?_)
    (fun other hother => ?_)
  · -- an earlier name does not stand in the value
    rcases hothers other (List.mem_append_left _ hother) with ⟨hmem, hnot⟩
    exact hnot (spelled_of_standsIn hq hplain hld hname.startsName
      (hordinary other hmem).startsName hstands)
  · -- a later one does not stand in the reference that the value has become
    rcases hothers other (List.mem_append_right _ hother) with ⟨hmem, hnot⟩
    exact not_standsIn_reference hq hname (hordinary other hmem) hfolder hnot (hsize other hother)
      hreference hn hplainReference

end Reference

end SiteFolders
