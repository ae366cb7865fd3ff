import SiteFolders.Text.Folding
import SiteFolders.Text.Lowercase
import SiteFolders.Text.Property
import Mathlib.Data.List.Forall2

/-!
# Letter case

Case folding and lower-casing only touch letters: a mark of ASCII or a blank equals no other
character up to letter case (`eq_of_sameFold`, `eq_of_sameFold_blank`), and a character that equals
an ASCII letter is an ASCII letter or one of two others (`of_sameFold_letter`). On ASCII texts both
notions of case are `Char.toLower`.
-/

namespace SiteFolders.Text

/-- What each run of the table does to characters beyond ASCII. -/
theorem foldRuns_bounds : ∀ run ∈ foldRuns, 0x61 ≤ run.target ∧
    run.target + (run.last - run.first) < 0x110000 ∧
    (run.target + (run.last - run.first) < 0xD800 ∨ 0xE000 ≤ run.target) ∧
    (0x80 ≤ run.target ∨ run.last < 0x80 ∨
      run.first = run.last ∧ (run.first = 0x17F ∨ run.first = 0x212A)) := by
  decide +kernel

/-- Images lead back to the code points that they come from. -/
theorem CaseRun.preimage?_of_image? {r : CaseRun} {m n : Nat} (h : r.image? n = some m) :
    r.preimage? m = some n := by
  unfold image? at h
  split at h
  · next hin =>
    obtain ⟨hfirst, hlast, hstep⟩ := hin
    obtain rfl := Option.some.inj h
    have hoffset : r.target + (n - r.first) - r.target = n - r.first := by omega
    unfold preimage?
    rw [hoffset, if_pos ⟨by omega, by omega, hstep⟩]
    congr 1
    omega
  · simp at h

theorem exists_run_of_findSome? {runs : List CaseRun} {n m : Nat}
    (h : runs.findSome? (·.image? n) = some m) :
    ∃ run ∈ runs, run.image? n = some m ∧ run.first ≤ n ∧ n ≤ run.last ∧
      m = run.target + (n - run.first) := by
  rcases List.exists_of_findSome?_eq_some h with ⟨run, hrun, himage⟩
  refine ⟨run, hrun, himage, ?_⟩
  unfold CaseRun.image? at himage
  split at himage
  · next hin => exact ⟨hin.1, hin.2.1, by simpa [eq_comm] using himage⟩
  · simp at himage

theorem toNat_ofNat_of_valid {n : Nat} (h : n.isValidChar) : (Char.ofNat n).toNat = n := by
  unfold Char.ofNat
  rw [dif_pos h]
  rfl

/-- Folding a character beyond ASCII leaves it or gives no mark or capital letter of ASCII; only
two of them give a letter of ASCII. -/
theorem fold_of_not_ascii {m : Char} (hm : 0x80 ≤ m.toNat) :
    0x61 ≤ (fold m).toNat ∧ (0x80 ≤ (fold m).toNat ∨ m.toNat = 0x17F ∨ m.toNat = 0x212A) := by
  unfold fold
  rw [if_neg (by omega)]
  split
  · next n hn =>
    rcases exists_run_of_findSome? hn with ⟨run, hrun, -, hfirst, hlast, rfl⟩
    rcases foldRuns_bounds run hrun with ⟨htarget, hmax, hvalid, hascii⟩
    have hvalid' : (run.target + (m.toNat - run.first)).isValidChar := by
      unfold Nat.isValidChar
      omega
    rw [toNat_ofNat_of_valid hvalid']
    omega
  · omega

theorem toNat_toLower (c : Char) : c.toLower.toNat =
    if 0x41 ≤ c.toNat ∧ c.toNat ≤ 0x5A then c.toNat + 0x20 else c.toNat := by
  unfold Char.toLower
  split
  · next h =>
    have hupper : 0x41 ≤ c.toNat ∧ c.toNat ≤ 0x5A := by
      simpa [UInt32.le_iff_toNat_le] using h
    have hoffset : ('a'.val - 'A'.val).toNat = 0x20 := by decide
    have hval : c.val.toNat = c.toNat := rfl
    change (c.val + ('a'.val - 'A'.val)).toNat = _
    rw [if_pos hupper, UInt32.toNat_add, hval, hoffset]
    omega
  · next h =>
    have hupper : ¬ (0x41 ≤ c.toNat ∧ c.toNat ≤ 0x5A) := by
      simpa [UInt32.le_iff_toNat_le] using h
    rw [if_neg hupper]

/-- A character that equals a mark or digit of ASCII up to letter case is that character. -/
theorem eq_of_sameFold {m c : Char} (hc : c.toNat < 0x41 ∨ 0x5B ≤ c.toNat ∧ c.toNat < 0x61)
    (h : sameFold c m = true) : m = c := by
  have hfold : fold c = fold m := by simpa [sameFold] using h
  have hfoldc : fold c = c := by
    apply Char.toNat_inj.1
    unfold fold
    rw [if_pos (by omega), toNat_toLower, if_neg (by omega)]
  by_cases hm : m.toNat < 0x80
  · apply Char.toNat_inj.1
    have hlower := congrArg Char.toNat hfold
    rw [hfoldc, fold, if_pos hm, toNat_toLower] at hlower
    split at hlower <;> omega
  · have := (fold_of_not_ascii (by omega : 0x80 ≤ m.toNat)).1
    rw [← hfold, hfoldc] at this
    omega

/-- A character that equals a letter of ASCII up to letter case is one itself, or one of two
others, which are no blanks. -/
theorem of_sameFold_letter {m c : Char} (hc : 0x61 ≤ c.toNat ∧ c.toNat ≤ 0x7A)
    (h : sameFold c m = true) :
    0x41 ≤ m.toNat ∧ m.toNat ≤ 0x5A ∨ 0x61 ≤ m.toNat ∧ m.toNat ≤ 0x7A ∨
      m.toNat = 0x17F ∨ m.toNat = 0x212A := by
  have hfold : fold c = fold m := by simpa [sameFold] using h
  have hfoldc : fold c = c := by
    apply Char.toNat_inj.1
    unfold fold
    rw [if_pos (by omega), toNat_toLower, if_neg (by omega)]
  by_cases hm : m.toNat < 0x80
  · have hlower := congrArg Char.toNat hfold
    rw [hfoldc, fold, if_pos hm, toNat_toLower] at hlower
    split at hlower <;> omega
  · have hbound := (fold_of_not_ascii (by omega : 0x80 ≤ m.toNat)).2
    rw [← hfold, hfoldc] at hbound
    omega

/-! ## Marks -/

/-- The runs of the table start behind the marks and hold characters only. -/
theorem foldRuns_first : ∀ run ∈ foldRuns, 0x41 ≤ run.first ∧
    (run.last < 0xD800 ∨ 0xE000 ≤ run.first ∧ run.last < 0x110000) := by
  decide +kernel

/-- What equals a mark of ASCII up to letter case is that mark. -/
theorem sameFold_mark {c : Char} (hc : c.toNat < 0x41) : sameFold c = fun d => d == c := by
  funext d
  rw [Bool.eq_iff_iff, beq_iff_eq]
  constructor
  · exact eq_of_sameFold (.inl hc)
  · rintro rfl
    exact sameFold_refl d

theorem fold_mark {c : Char} (hc : c.toNat < 0x41) : fold c = c := by
  apply Char.toNat_inj.1
  rw [fold, if_pos (by omega), toNat_toLower, if_neg (by omega)]

/-- Only a mark has a mark among its variants. -/
theorem eq_of_mem_foldVariants {c d : Char} (hd : d.toNat < 0x41) (h : d ∈ foldVariants c) : d = c := by
  rcases List.mem_cons.1 h with rfl | h
  · by_cases hc : c.toNat < 0x80
    · apply Char.toNat_inj.1
      have hlower := toNat_toLower c
      rw [fold, if_pos hc] at hd ⊢
      split at hlower <;> omega
    · have := (fold_of_not_ascii (by omega : 0x80 ≤ c.toNat)).1
      omega
  · -- the images of the table come from letters
    obtain ⟨run, hrun, hpreimage⟩ := List.mem_filterMap.1 h
    obtain ⟨n, hn, rfl⟩ := Option.map_eq_some_iff.1 hpreimage
    obtain ⟨hfirst, hlast⟩ := foldRuns_first run hrun
    unfold CaseRun.preimage? at hn
    split at hn
    · next hin =>
      obtain rfl := Option.some.inj hn
      rw [toNat_ofNat_of_valid (by unfold Nat.isValidChar; omega)] at hd
      omega
    · cases hn

/-- A set of marks is closed under letter case. -/
theorem foldClosure_marks {p : Char → Bool} (hp : ∀ c, p c = true → c.toNat < 0x41) :
    foldClosure p = p := by
  funext c
  rw [Bool.eq_iff_iff, foldClosure, List.any_eq_true]
  constructor
  · rintro ⟨d, hd, hpd⟩
    obtain rfl := eq_of_mem_foldVariants (hp d hpd) hd
    exact hpd
  · intro hpc
    exact ⟨c, by simp [foldVariants, fold_mark (hp c hpc)], hpc⟩

/-! ## Blanks -/

/-- The blanks beyond ASCII. -/
def wideBlanks : List Nat :=
  [0x85, 0xA0, 0x1680, 0x2000, 0x2001, 0x2002, 0x2003, 0x2004, 0x2005, 0x2006, 0x2007, 0x2008,
    0x2009, 0x200A, 0x2028, 0x2029, 0x202F, 0x205F, 0x3000]

/-- No blank beyond ASCII lies in a run of the table, and none is the image of anything. -/
theorem foldRuns_wideBlanks : ∀ run ∈ foldRuns, ∀ n ∈ wideBlanks,
    run.image? n = none ∧ run.preimage? n = none := by
  decide +kernel

theorem isBlank_cases {c : Char} (h : isBlank c = true) :
    c.toNat < 0x41 ∨ 0x80 ≤ c.toNat ∧ c.toNat ∈ wideBlanks := by
  simp [isBlank, wideBlanks] at h ⊢
  omega

theorem fold_of_wideBlank {c : Char} (hc : c.toNat ∈ wideBlanks) (hwide : 0x80 ≤ c.toNat) :
    fold c = c := by
  have hnone : foldRuns.findSome? (·.image? c.toNat) = none :=
    List.findSome?_eq_none_iff.2 fun run hrun => (foldRuns_wideBlanks run hrun _ hc).1
  unfold fold
  rw [if_neg (by omega), hnone]

theorem fold_ne_wideBlank {c m : Char} (hc : c.toNat ∈ wideBlanks) (hm : 0x80 ≤ m.toNat)
    (hne : m ≠ c) : fold m ≠ c := by
  intro h
  unfold fold at h
  rw [if_neg (by omega)] at h
  split at h
  · next n hn =>
    rcases exists_run_of_findSome? hn with ⟨run, hrun, himage, hfirst, hlast, hrange⟩
    have hvalid : n.isValidChar := by
      rcases foldRuns_bounds run hrun with ⟨-, hmax, hvalid, -⟩
      unfold Nat.isValidChar
      omega
    rw [← h, toNat_ofNat_of_valid hvalid] at hc
    have hpreimage := CaseRun.preimage?_of_image? himage
    rw [(foldRuns_wideBlanks run hrun n hc).2] at hpreimage
    simp at hpreimage
  · exact hne h

/-- A character that equals a blank up to letter case is that blank. -/
theorem eq_of_sameFold_blank {m c : Char} (hc : isBlank c = true) (h : sameFold c m = true) :
    m = c := by
  rcases isBlank_cases hc with hsmall | ⟨hwide, hmem⟩
  · exact eq_of_sameFold (Or.inl hsmall) h
  · have hfold : fold c = fold m := by simpa [sameFold] using h
    rw [fold_of_wideBlank hmem hwide] at hfold
    by_cases hm : m.toNat < 0x80
    · have hlower := congrArg Char.toNat hfold
      rw [fold, if_pos hm, toNat_toLower] at hlower
      split at hlower <;> omega
    · by_contra hne
      exact fold_ne_wideBlank hmem (by omega) hne hfold.symm

/-- On ASCII, being the same up to letter case is having the same lower-case form. -/
theorem sameFold_ascii {a b : Char} (ha : a.toNat < 0x80) (hb : b.toNat < 0x80) :
    sameFold a b = true ↔ a.toLower = b.toLower := by
  simp [sameFold, fold, ha, hb]

/-! ## Texts in any letter case -/

/-- The second text is the first one in any letter case. -/
def Spelled (a b : List Char) : Prop := List.Forall₂ (fun x y => sameFold x y = true) a b

instance (a b : List Char) : Decidable (Spelled a b) :=
  inferInstanceAs (Decidable (List.Forall₂ _ a b))

theorem Spelled.length_eq {a b : List Char} (h : Spelled a b) : a.length = b.length :=
  List.Forall₂.length_eq h

theorem Spelled.refl (a : List Char) : Spelled a a :=
  List.forall₂_same.2 fun c _ => sameFold_refl c

theorem Spelled.symm {a b : List Char} (h : Spelled a b) : Spelled b a :=
  (List.Forall₂.flip h).imp fun x y hxy => by rwa [sameFold_comm]

theorem Spelled.trans {a b c : List Char} (h : Spelled a b) (h' : Spelled b c) : Spelled a c := by
  induction h generalizing c with
  | nil => exact h'
  | @cons x y s t hxy _ ih =>
    cases h' with
    | @cons _ z _ u hyz hrest =>
      have hfold : fold x = fold y := by simpa [sameFold] using hxy
      have hfold' : fold y = fold z := by simpa [sameFold] using hyz
      exact .cons (by simp [sameFold, hfold, hfold']) (ih hrest)

theorem Spelled.exists_of_mem {a b : List Char} (h : Spelled a b) {c : Char} (hc : c ∈ b) :
    ∃ k ∈ a, sameFold k c = true := by
  induction h with
  | nil => simp at hc
  | @cons x y s t hxy _ ih =>
    rcases List.mem_cons.1 hc with rfl | hc
    · exact ⟨x, List.mem_cons_self, hxy⟩
    · obtain ⟨k, hk, hsame⟩ := ih hc
      exact ⟨k, List.mem_cons_of_mem x hk, hsame⟩

/-- A mark or digit is in one of the texts if it is in the other. -/
theorem Spelled.mem_iff {a b : List Char} (h : Spelled a b) {c : Char}
    (hc : c.toNat < 0x41 ∨ 0x5B ≤ c.toNat ∧ c.toNat < 0x61) : c ∈ b ↔ c ∈ a := by
  induction h with
  | nil => simp
  | @cons x y s t hxy _ ih =>
    simp only [List.mem_cons, ih]
    refine or_congr_left ⟨?_, ?_⟩
    · rintro rfl
      rw [sameFold_comm] at hxy
      exact (eq_of_sameFold hc hxy).symm
    · rintro rfl
      exact (eq_of_sameFold hc hxy).symm

/-- The texts start alike where one of them starts with a mark or digit. -/
theorem Spelled.head?_eq_iff {a b : List Char} (h : Spelled a b) {c : Char}
    (hc : c.toNat < 0x41 ∨ 0x5B ≤ c.toNat ∧ c.toNat < 0x61) :
    b.head? = some c ↔ a.head? = some c := by
  cases h with
  | nil => rfl
  | @cons x y _ _ hxy _ =>
    simp only [List.head?_cons, Option.some.injEq]
    constructor
    · rintro rfl
      rw [sameFold_comm] at hxy
      exact eq_of_sameFold hc hxy
    · rintro rfl
      exact eq_of_sameFold hc hxy

/-- The texts end alike where one of them ends in a mark or digit. -/
theorem Spelled.getLast?_eq_iff {a b : List Char} (h : Spelled a b) {c : Char}
    (hc : c.toNat < 0x41 ∨ 0x5B ≤ c.toNat ∧ c.toNat < 0x61) :
    b.getLast? = some c ↔ a.getLast? = some c := by
  have hrev : Spelled a.reverse b.reverse := List.rel_reverse h
  rw [← List.head?_reverse, ← List.head?_reverse]
  exact hrev.head?_eq_iff hc

theorem Spelled.exists_of_getLast? {a b : List Char} (h : Spelled a b) {c : Char}
    (hc : b.getLast? = some c) : ∃ k, a.getLast? = some k ∧ sameFold k c = true := by
  obtain ⟨b, rfl⟩ := List.getLast?_eq_some_iff.1 hc
  have hrev : Spelled a.reverse (b ++ [c]).reverse := List.rel_reverse h
  rw [List.reverse_concat] at hrev
  obtain ⟨k, a', hsame, -, ha⟩ := List.forall₂_cons_right_iff.1 hrev
  refine ⟨k, ?_, hsame⟩
  rw [← List.head?_reverse, ha, List.head?_cons]

/-! ## Lower case -/

/-- Lower-casing an ASCII text does so character by character. -/
theorem lowerAfter_ascii : ∀ {cs : List Char} (before : List Char), (∀ c ∈ cs, c.toNat < 0x80) →
    lowerAfter before cs = cs.map Char.toLower
  | [], _, _ => rfl
  | c :: cs, before, h => by
    have hc := h c List.mem_cons_self
    have hsigma : c ≠ 'Σ' := by
      rintro rfl
      exact absurd hc (by decide)
    rw [lowerAfter, if_neg hsigma, lowerOne_ascii hc,
      lowerAfter_ascii (c :: before) fun k hk => h k (List.mem_cons_of_mem c hk)]
    rfl

/-- ASCII texts that are the same up to letter case have one lower-case form. -/
theorem Spelled.lowercase_eq {a b : String} (h : Spelled a.toList b.toList)
    (ha : ∀ c ∈ a.toList, c.toNat < 0x80) (hb : ∀ c ∈ b.toList, c.toNat < 0x80) :
    lowercase a = lowercase b := by
  rw [lowercase, lowercase, lowerAfter_ascii [] ha, lowerAfter_ascii [] hb]
  congr 1
  generalize a.toList = as at h ha
  generalize b.toList = bs at h hb
  induction h with
  | nil => rfl
  | @cons x y as bs hxy _ ih =>
    have hlower := (sameFold_ascii (ha x List.mem_cons_self) (hb y List.mem_cons_self)).1 hxy
    rw [List.map_cons, List.map_cons, hlower, ih (fun c hc => ha c (List.mem_cons_of_mem x hc))
      fun c hc => hb c (List.mem_cons_of_mem y hc)]

end SiteFolders.Text
