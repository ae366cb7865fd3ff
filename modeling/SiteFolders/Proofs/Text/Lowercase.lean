import SiteFolders.Proofs.Text.Folding

/-!
# Lower-case texts

No image of the lower-case table is mapped in turn, so the lower-case form of a text is its own
lower-case form (`lowercase_lowercase`). Lower-casing makes no dot and takes none away
(`dot_mem_lowercase_iff`).

Only the form of a sigma depends on what stands around it. So up to characters beyond ASCII
a lower-case form is made character by character (`agree_lowerAfter`), and which ASCII texts it
begins with, ends in or is does not depend on where a word ends.
-/

namespace SiteFolders.Text

/-! ## The table -/

/-- Where the images of each run lie. -/
theorem lowerRuns_bounds : ∀ run ∈ lowerRuns, 0x61 ≤ run.target ∧
    run.target + (run.last - run.first) < 0x110000 ∧
    (run.target + (run.last - run.first) < 0xD800 ∨ 0xE000 ≤ run.target) ∧
    (run.target + (run.last - run.first) < 0x130 ∨ 0x130 < run.target) ∧
    (0x80 ≤ run.target ∨ run.last < 0x80 ∨ run.first = run.last ∧ run.target = 0x6B) := by
  decide +kernel

/-- The images of `run` lie outside the run `other`, or between its code points. -/
def CaseRun.misses (run other : CaseRun) : Bool :=
  Nat.blt other.last run.target || Nat.blt (run.target + (run.last - run.first)) other.first ||
    (Nat.beq other.step 2 && (Nat.beq run.step 2 || Nat.beq run.first run.last) &&
      Nat.beq ((run.target + other.first) % 2) 1)

theorem lowerRuns_misses : ∀ run ∈ lowerRuns, ∀ other ∈ lowerRuns, run.misses other = true := by
  -- as one truth value: deciding the pairs one by one takes the kernel three times as long
  have hall : (lowerRuns.all fun run => lowerRuns.all run.misses) = true := by decide +kernel
  simpa only [List.all_eq_true] using hall

/-- An image has no image. -/
theorem findSome?_image? {n m : Nat} (h : lowerRuns.findSome? (·.image? n) = some m) :
    lowerRuns.findSome? (·.image? m) = none := by
  obtain ⟨run, hrun, himage, hfirst, hlast, rfl⟩ := exists_run_of_findSome? h
  have hstep : (n - run.first) % run.step = 0 := by
    unfold CaseRun.image? at himage
    split at himage
    · next hin => exact hin.2.2
    · simp at himage
  refine List.findSome?_eq_none_iff.2 fun other hother => ?_
  have hmisses := lowerRuns_misses run hrun other hother
  simp only [CaseRun.misses, Bool.or_eq_true, Bool.and_eq_true, Nat.blt_eq, Nat.beq_eq] at hmisses
  unfold CaseRun.image?
  rw [if_neg]
  rintro ⟨hfirst', hlast', hstep'⟩
  rcases hmisses with (hafter | hbefore) | ⟨⟨htwo, hrun'⟩, hodd⟩
  · omega
  · omega
  · -- both runs go in twos, and the image is an odd way from the start of the other one
    rw [htwo] at hstep'
    rcases hrun' with htwo' | hsingle
    · rw [htwo'] at hstep
      omega
    · omega

/-! ## Characters -/

/-- The ways in which a character comes to its lower-case form. -/
inductive Lowered (c : Char) : List Char → Prop
  | ascii (h : c.toNat < 0x80) : Lowered c [c.toLower]
  | dotted (h : c.toNat = 0x130) : Lowered c ['i', '\u0307']
  | mapped {n : Nat} (hwide : 0x80 ≤ c.toNat) (h : lowerRuns.findSome? (·.image? c.toNat) = some n) :
      Lowered c [Char.ofNat n]
  | kept (hwide : 0x80 ≤ c.toNat) (hdotted : c.toNat ≠ 0x130)
      (h : lowerRuns.findSome? (·.image? c.toNat) = none) : Lowered c [c]

theorem lowered_lowerOne (c : Char) : Lowered c (lowerOne c) := by
  unfold lowerOne
  split
  · next h => exact .ascii h
  · next h =>
    split
    · next hdotted => exact .dotted hdotted
    · next hdotted =>
      split
      · next n hn => exact .mapped (by omega) hn
      · next hn => exact .kept (by omega) hdotted hn

/-- What an image of the table is. -/
theorem toNat_ofNat_image {n m : Nat} (h : lowerRuns.findSome? (·.image? n) = some m)
    (hwide : 0x80 ≤ n) : (Char.ofNat m).toNat = m ∧ m ≠ 0x130 ∧ (0x80 ≤ m ∨ m = 0x6B) := by
  obtain ⟨run, hrun, -, hfirst, hlast, rfl⟩ := exists_run_of_findSome? h
  obtain ⟨-, hmax, hvalid, hdotted, hascii⟩ := lowerRuns_bounds run hrun
  have hchar : (run.target + (n - run.first)).isValidChar := by
    unfold Nat.isValidChar
    omega
  refine ⟨toNat_ofNat_of_valid hchar, by omega, by omega⟩

/-- A character that is its own lower-case form, wherever it stands. -/
def IsLower (c : Char) : Prop := c ≠ 'Σ' ∧ lowerOne c = [c]

theorem isLower_of_ascii {c : Char} (h : c.toNat < 0x80)
    (hupper : c.toNat < 0x41 ∨ 0x5A < c.toNat) : IsLower c := by
  constructor
  · rintro rfl
    exact absurd h (by decide)
  · rw [lowerOne_ascii h]
    congr 1
    apply Char.toNat_inj.1
    rw [toNat_toLower, if_neg (by omega)]

theorem isLower_of_image {n m : Nat} (h : lowerRuns.findSome? (·.image? n) = some m)
    (hwide : 0x80 ≤ n) : IsLower (Char.ofNat m) := by
  obtain ⟨hchar, hdotted, hm⟩ := toNat_ofNat_image h hwide
  rcases hm with hm | rfl
  · have hnone := findSome?_image? h
    constructor
    · intro hsigma
      have hcode : m = 0x3A3 := by
        rw [← hchar, hsigma]
        rfl
      rw [hcode] at hnone
      exact absurd hnone (by decide +kernel)
    · unfold lowerOne
      rw [if_neg (by omega), hchar, if_neg hdotted, hnone]
  · exact isLower_of_ascii (by decide) (by decide)

/-- Lower-casing a character gives characters that are lower-case. -/
theorem isLower_of_mem_lowerOne {c d : Char} (hc : c ≠ 'Σ') (hd : d ∈ lowerOne c) : IsLower d := by
  have hway := lowered_lowerOne c
  generalize hform : lowerOne c = form at hway hd
  cases hway with
  | ascii h =>
    obtain rfl := List.mem_singleton.1 hd
    refine isLower_of_ascii ?_ ?_ <;> rw [toNat_toLower] <;> split <;> omega
  | dotted h =>
    rcases List.mem_cons.1 hd with rfl | hd
    · exact isLower_of_ascii (by decide) (by decide)
    · obtain rfl := List.mem_singleton.1 hd
      exact ⟨by decide, by decide +kernel⟩
  | mapped hwide h =>
    obtain rfl := List.mem_singleton.1 hd
    exact isLower_of_image h hwide
  | kept hwide hdotted h =>
    obtain rfl := List.mem_singleton.1 hd
    exact ⟨hc, hform⟩

/-- A character of ASCII comes from a character of ASCII, two letters apart. -/
theorem ascii_of_mem_lowerOne {c d : Char} (hd : d ∈ lowerOne c) (hascii : d.toNat < 0x80)
    (hi : d ≠ 'i') (hk : d ≠ 'k') : c.toNat < 0x80 ∧ d = c.toLower := by
  have hway := lowered_lowerOne c
  generalize lowerOne c = form at hway hd
  cases hway with
  | ascii h => exact ⟨h, List.mem_singleton.1 hd⟩
  | dotted h =>
    rcases List.mem_cons.1 hd with rfl | hd
    · exact absurd rfl hi
    · obtain rfl := List.mem_singleton.1 hd
      exact absurd hascii (by decide)
  | mapped hwide h =>
    obtain rfl := List.mem_singleton.1 hd
    obtain ⟨hchar, -, hm | rfl⟩ := toNat_ofNat_image h hwide
    · omega
    · exact absurd rfl hk
  | kept hwide hdotted h =>
    obtain rfl := List.mem_singleton.1 hd
    omega

/-! ## Texts -/

theorem mem_lowerAfter {d : Char} {cs : List Char} {before : List Char}
    (h : d ∈ lowerAfter before cs) : d = 'ς' ∨ d = 'σ' ∨ ∃ c ∈ cs, c ≠ 'Σ' ∧ d ∈ lowerOne c := by
  induction cs generalizing before with
  | nil => simp [lowerAfter] at h
  | cons c rest ih =>
    rw [lowerAfter, List.mem_append] at h
    rcases h with h | h
    · by_cases hsigma : c = 'Σ'
      · rw [if_pos hsigma] at h
        obtain rfl := List.mem_singleton.1 h
        split
        · exact Or.inl rfl
        · exact Or.inr (Or.inl rfl)
      · rw [if_neg hsigma] at h
        exact Or.inr (Or.inr ⟨c, List.mem_cons_self, hsigma, h⟩)
    · rcases ih h with hfinal | hinner | ⟨k, hk, hne, hmem⟩
      · exact Or.inl hfinal
      · exact Or.inr (Or.inl hinner)
      · exact Or.inr (Or.inr ⟨k, List.mem_cons_of_mem c hk, hne, hmem⟩)

theorem isLower_of_mem_lowerAfter {d : Char} {before cs : List Char}
    (h : d ∈ lowerAfter before cs) : IsLower d := by
  rcases mem_lowerAfter h with rfl | rfl | ⟨c, -, hc, hd⟩
  · exact ⟨by decide, by decide +kernel⟩
  · exact ⟨by decide, by decide +kernel⟩
  · exact isLower_of_mem_lowerOne hc hd

theorem lowerAfter_of_isLower {cs : List Char} (h : ∀ c ∈ cs, IsLower c) (before : List Char) :
    lowerAfter before cs = cs := by
  induction cs generalizing before with
  | nil => rfl
  | cons c rest ih =>
    obtain ⟨hsigma, hone⟩ := h c List.mem_cons_self
    rw [lowerAfter, if_neg hsigma, hone, ih fun k hk => h k (List.mem_cons_of_mem c hk)]
    rfl

/-- Lower-casing twice is lower-casing once. -/
theorem lowercase_lowercase (s : String) : lowercase (lowercase s) = lowercase s := by
  rw [lowercase, lowercase, String.toList_ofList,
    lowerAfter_of_isLower fun c hc => isLower_of_mem_lowerAfter hc]

/-- The lower-case form of a text has a dot exactly if the text has one. -/
theorem dot_mem_lowercase_iff {s : String} : '.' ∈ (lowercase s).toList ↔ '.' ∈ s.toList := by
  rw [lowercase, String.toList_ofList]
  generalize [] = before
  induction s.toList generalizing before with
  | nil => simp [lowerAfter]
  | cons c rest ih =>
    have hone : '.' ∈ (if c = 'Σ' then [if endsWord before rest then 'ς' else 'σ'] else lowerOne c) ↔
        '.' = c := by
      constructor
      · intro hmem
        split at hmem
        · split at hmem <;> simp at hmem
        · obtain ⟨-, hlower⟩ :=
            ascii_of_mem_lowerOne hmem (by decide) (by decide) (by decide)
          apply Char.toNat_inj.1
          have hcode := congrArg Char.toNat hlower
          rw [toNat_toLower] at hcode
          split at hcode
          · next hupper =>
            have hdot : '.'.toNat = 0x2E := rfl
            omega
          · exact hcode
      · rintro rfl
        simp [lowerOne_ascii]
    rw [lowerAfter, List.mem_append, List.mem_cons, ih, hone]

/-! ## Up to characters beyond ASCII -/

/-- The lower-case form of a character as if no word ended behind it. -/
def lowerInside (c : Char) : List Char := if c = 'Σ' then ['σ'] else lowerOne c

/-- Texts of one length that differ in characters beyond ASCII only. -/
def Agree (a b : List Char) : Prop :=
  List.Forall₂ (fun x y => x = y ∨ 0x80 ≤ x.toNat ∧ 0x80 ≤ y.toNat) a b

/-- Up to characters beyond ASCII, a text is lower-cased character by character. -/
theorem agree_lowerAfter (before cs : List Char) :
    Agree (lowerAfter before cs) (cs.flatMap lowerInside) := by
  induction cs generalizing before with
  | nil => exact .nil
  | cons c rest ih =>
    rw [lowerAfter, List.flatMap_cons]
    refine List.rel_append ?_ (ih _)
    unfold lowerInside
    split
    · refine .cons (Or.inr ⟨?_, by decide⟩) .nil
      split <;> decide
    · exact List.forall₂_same.2 fun _ _ => Or.inl rfl

theorem Agree.eq_of_ascii {a b : List Char} (h : Agree a b) (hb : ∀ c ∈ b, c.toNat < 0x80) :
    a = b := by
  induction h with
  | nil => rfl
  | @cons x y a b hxy _ ih =>
    have hy := hb y List.mem_cons_self
    rcases hxy with rfl | ⟨-, hwide⟩
    · rw [ih fun c hc => hb c (List.mem_cons_of_mem x hc)]
    · omega

theorem Agree.symm {a b : List Char} (h : Agree a b) : Agree b a :=
  (List.Forall₂.flip h).imp fun _ _ hxy => hxy.imp Eq.symm And.symm

/-- Of two texts that agree both are a given text of ASCII or none is. -/
theorem Agree.eq_iff {a b s : List Char} (h : Agree a b) (hs : ∀ c ∈ s, c.toNat < 0x80) :
    a = s ↔ b = s := by
  constructor
  · rintro rfl
    exact h.symm.eq_of_ascii hs
  · rintro rfl
    exact h.eq_of_ascii hs

/-- Both begin with a given text of ASCII or none does. -/
theorem Agree.prefix_iff {a b s : List Char} (h : Agree a b) (hs : ∀ c ∈ s, c.toNat < 0x80) :
    s <+: a ↔ s <+: b := by
  have htake : Agree (a.take s.length) (b.take s.length) := List.forall₂_take s.length h
  rw [List.prefix_iff_eq_take, List.prefix_iff_eq_take, eq_comm, htake.eq_iff hs, eq_comm]

/-- Both end in a given text of ASCII or none does. -/
theorem Agree.suffix_iff {a b s : List Char} (h : Agree a b) (hs : ∀ c ∈ s, c.toNat < 0x80) :
    s <:+ a ↔ s <:+ b := by
  have hdrop : Agree (a.drop (a.length - s.length)) (b.drop (a.length - s.length)) :=
    List.forall₂_drop _ h
  rw [List.suffix_iff_eq_drop, List.suffix_iff_eq_drop, eq_comm, hdrop.eq_iff hs, eq_comm,
    List.Forall₂.length_eq h]

end SiteFolders.Text
