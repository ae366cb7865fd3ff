import SiteFolders.Proofs.Disk.Rewriting
import SiteFolders.Reference.Files

/-!
# Updates of files

What becomes of a file (`fate`) depends on the bytes of that file only, so where no two paths lead
to one file, each file of a list fares as it would by itself. A run that skips failures is then
known from the disk it starts on (`updateEach_skip`), and a run that stops at the first failure is
one that skips failures, up to there (`updateEach_abort`). If nothing fails, each file holds the
update of its text (`EachUpdated.readText`).
-/

namespace SiteFolders.Reference

open Disk

variable {loose : Bool} {moved : List Moved}

/-! ## One file -/

/-- The text of a file in a directory after an update. -/
def updatedText (loose : Bool) (moved : List Moved) (p : Path) (text : String) : String :=
  String.ofList (update loose moved (p.parent?.getD ⟨""⟩) text.toList).text

/-- What becomes of a file: whether its text changes, or why the file cannot be updated. -/
def fate (loose : Bool) (moved : List Moved) (d : Disk) (p : Path) : Except DiskError Bool :=
  (updateFile loose moved p d).map (·.1)

theorem fate_eq_error_iff {d : Disk} {p : Path} {e : DiskError} :
    fate loose moved d p = .error e ↔ updateFile loose moved p d = .error e := by
  unfold fate
  cases updateFile loose moved p d <;> simp

theorem fate_eq_ok_iff {d : Disk} {p : Path} {changed : Bool} :
    fate loose moved d p = .ok changed ↔ ∃ after, updateFile loose moved p d = .ok (changed, after) := by
  unfold fate
  cases updateFile loose moved p d <;> simp [Prod.ext_iff]

/-- The file that a path leads to holds a text that is not the updated one, and holds that in
`last`. -/
def Rewritten (loose : Bool) (moved : List Moved) (d last : Disk) (p : Path) (loc : Location) :
    Prop :=
  ∃ mode bytes text, d.locate true p = .ok (loc, .file mode bytes) ∧ d.mayRead mode = true ∧
    String.fromUTF8? bytes = some text ∧ updatedText loose moved p text ≠ text ∧
    last.get? loc = some (.file mode (updatedText loose moved p text).toUTF8)

/-- An update of one file does nothing or gives the file its updated text. -/
theorem updateFile_cases {d after : Disk} {p : Path} {changed : Bool}
    (h : updateFile loose moved p d = .ok (changed, after)) :
    (changed = false ∧ after = d ∧ ∃ text, d.readText p = .ok text ∧
      updatedText loose moved p text = text) ∨
    (changed = true ∧ ∃ loc, Rewritten loose moved d after p loc ∧ d.SameTree after ∧
      (d.IsTree → after.IsTree) ∧ ∀ other, other ≠ loc → after.get? other = d.get? other) := by
  obtain ⟨text, hread, h⟩ := bind_eq_ok_iff.1 h
  have hupdated : String.ofList (update loose moved (p.parent?.getD ⟨""⟩) text.toList).text =
      updatedText loose moved p text := rfl
  simp only [hupdated] at h
  split at h
  · next hsame =>
    obtain ⟨rfl, rfl⟩ := Prod.mk.inj (Except.ok.inj h)
    exact Or.inl ⟨rfl, rfl, text, hread, hsame⟩
  · next hne =>
    obtain ⟨written, hwrite, h⟩ := bind_eq_ok_iff.1 h
    obtain ⟨rfl, rfl⟩ := Prod.mk.inj (Except.ok.inj h)
    obtain ⟨loc, mode, bytes, hloc, hmay, htext⟩ := readText_eq_ok_iff.1 hread
    have hget := (locate_eq_ok_iff.1 hloc).2
    obtain rfl := put_of_writeText hloc hwrite
    refine Or.inr ⟨rfl, loc, ⟨mode, bytes, text, hloc, hmay, htext, hne, ?_⟩,
      sameTree_put_file hget _, isTree_put_file hget _,
      fun other hother => get?_put_of_ne d _ hother⟩
    cases loc with
    | nil => simp at hget
    | cons n dir => exact get?_put_self d n dir _

/-- An update of one file changes nothing but the bytes of regular files. -/
theorem sameTree_updateFile {d after : Disk} {p : Path} {changed : Bool}
    (h : updateFile loose moved p d = .ok (changed, after)) :
    d.SameTree after ∧ (d.IsTree → after.IsTree) := by
  rcases updateFile_cases h with ⟨-, rfl, -⟩ | ⟨-, -, -, hsame, htree, -⟩
  · exact ⟨.refl _, id⟩
  · exact ⟨hsame, htree⟩

/-- What becomes of a file depends on its own bytes only. -/
theorem fate_of_sameTree {d d' : Disk} (h : d.SameTree d') {p : Path}
    (hsame : ∀ loc, d.location? p = some loc → d'.get? loc = d.get? loc) :
    fate loose moved d' p = fate loose moved d p := by
  unfold fate updateFile
  rw [h.readText hsame]
  cases d.readText p with
  | error e => rfl
  | ok text =>
    simp only [ok_bind]
    split
    · rfl
    · -- the text can be written now if it could be written then
      have hwrite := h.writeText p
        (String.ofList (update loose moved (p.parent?.getD ⟨""⟩) text.toList).text)
      generalize d'.writeText p _ = written' at hwrite ⊢
      generalize d.writeText p _ = written at hwrite ⊢
      cases written <;> cases written' <;> simp_all

/-! ## The files of a list -/

/-- True of a file whose text changes. -/
def changes (loose : Bool) (moved : List Moved) (d : Disk) (p : Path) : Bool :=
  (fate loose moved d p).toOption.getD false

/-- The note on a file that cannot be updated. -/
def failure? (loose : Bool) (moved : List Moved) (d : Disk) (p : Path) : Option Skip :=
  match fate loose moved d p with
  | .ok _ => none
  | .error e => some ⟨p, .failed e⟩

/-- What the update of a list of files comes to if each fares as it would by itself. -/
def summaryOn (loose : Bool) (moved : List Moved) (d : Disk) (files : List Path) : Summary :=
  ⟨files.length, files.filter (changes loose moved d), files.filterMap (failure? loose moved d)⟩

theorem changes_iff {d : Disk} {p : Path} :
    changes loose moved d p = true ↔ fate loose moved d p = .ok true := by
  unfold changes
  rcases fate loose moved d p with e | (_ | _) <;> simp

theorem failure?_eq_some_iff {d : Disk} {p : Path} {s : Skip} :
    failure? loose moved d p = some s ↔ ∃ e, fate loose moved d p = .error e ∧ s = ⟨p, .failed e⟩ := by
  unfold failure?
  cases fate loose moved d p <;> simp [eq_comm]

theorem summaryOn_congr {d d' : Disk} {files : List Path}
    (h : ∀ p ∈ files, fate loose moved d' p = fate loose moved d p) :
    summaryOn loose moved d' files = summaryOn loose moved d files := by
  have hchanges : ∀ p ∈ files, changes loose moved d' p = changes loose moved d p := by
    intro p hp
    rw [changes, changes, h p hp]
  have hfailure : ∀ p ∈ files, failure? loose moved d' p = failure? loose moved d p := by
    intro p hp
    rw [failure?, failure?, h p hp]
  rw [summaryOn, summaryOn, List.filter_congr hchanges, List.filterMap_congr hfailure]

/-- The files of a list whose texts change hold their updated texts, and all else is as it was. -/
structure EachUpdated (loose : Bool) (moved : List Moved) (files : List Path) (d last : Disk) :
    Prop where
  sameTree : d.SameTree last
  rewritten : ∀ p ∈ files, fate loose moved d p = .ok true → ∃ loc, Rewritten loose moved d last p loc
  kept : ∀ loc, (∀ p ∈ files, fate loose moved d p = .ok true → d.location? p ≠ some loc) →
    last.get? loc = d.get? loc

theorem Rewritten.location? {d last : Disk} {p : Path} {loc : Location}
    (h : Rewritten loose moved d last p loc) : d.location? p = some loc := by
  obtain ⟨mode, bytes, -, hloc, -⟩ := h
  exact location?_eq_some_iff.2 ⟨_, hloc⟩

/-- One place holds one text after every file of a list is updated, in whatever order. -/
theorem EachUpdated.get?_eq {files files' : List Path} {d last last' : Disk}
    (h : EachUpdated loose moved files d last) (h' : EachUpdated loose moved files' d last')
    (hmem : ∀ p, p ∈ files ↔ p ∈ files') (loc : Location) : last'.get? loc = last.get? loc := by
  by_cases hwritten : ∃ p ∈ files, fate loose moved d p = .ok true ∧ d.location? p = some loc
  · -- both texts are the updated text of what the place holds at the start
    obtain ⟨p, hp, hfate, hloc⟩ := hwritten
    obtain ⟨at1, hat⟩ := h.rewritten p hp hfate
    obtain ⟨at2, hat'⟩ := h'.rewritten p ((hmem p).1 hp) hfate
    obtain rfl : at1 = loc := Option.some.inj (hat.location?.symm.trans hloc)
    obtain rfl : at2 = at1 := Option.some.inj (hat'.location?.symm.trans hloc)
    obtain ⟨mode, bytes, text, hfile, -, htext, -, hget⟩ := hat
    obtain ⟨mode', bytes', text', hfile', -, htext', -, hget'⟩ := hat'
    obtain ⟨rfl, rfl⟩ : mode = mode' ∧ bytes = bytes' := by simpa [hfile] using hfile'
    obtain rfl : text = text' := by simpa [htext] using htext'
    rw [hget, hget']
  · push Not at hwritten
    rw [h.kept loc fun p hp hfate => hwritten p hp hfate,
      h'.kept loc fun p hp hfate => hwritten p ((hmem p).2 hp) hfate]

/-- The entry that a path leads to is as it was. -/
def LeftAlone (d last : Disk) (p : Path) : Prop :=
  ∀ loc, d.location? p = some loc → last.get? loc = d.get? loc

theorem EachUpdated.leftAlone {files : List Path} {d last : Disk} {p : Path}
    (h : EachUpdated loose moved files d last)
    (hother : ∀ q ∈ files, fate loose moved d q = .ok true → d.location? q = d.location? p →
      d.location? q = none) : LeftAlone d last p := by
  intro loc hloc
  refine h.kept loc fun q hq hfate hwritten => ?_
  have hnone := hother q hq hfate (hwritten.trans hloc.symm)
  simp [hwritten] at hnone

theorem EachUpdated.cons_of_same {p : Path} {rest : List Path} {d last : Disk}
    (hfate : fate loose moved d p ≠ .ok true) (h : EachUpdated loose moved rest d last) :
    EachUpdated loose moved (p :: rest) d last where
  sameTree := h.sameTree
  rewritten := by
    intro q hq hchange
    rcases List.mem_cons.1 hq with rfl | hq
    · exact absurd hchange hfate
    · exact h.rewritten q hq hchange
  kept := fun loc hloc => h.kept loc fun q hq => hloc q (List.mem_cons_of_mem _ hq)

/-- The bytes that are written to a file are no other file's. -/
theorem get?_of_rewritten {p : Path} {rest : List Path} {d after : Disk} {loc : Location}
    (hu : d.Unaliased (p :: rest)) (hwritten : Rewritten loose moved d after p loc)
    (hothers : ∀ other, other ≠ loc → after.get? other = d.get? other) :
    ∀ q ∈ rest, d.location? q ≠ some loc ∧
      ∀ other, d.location? q = some other → after.get? other = d.get? other := by
  intro q hq
  have hne : d.location? q ≠ some loc := by
    intro hloc
    have hnone := (List.pairwise_cons.1 hu).1 q hq (hwritten.location?.trans hloc.symm)
    simp [hwritten.location?] at hnone
  refine ⟨hne, fun other hother => hothers other ?_⟩
  rintro rfl
  exact hne hother

theorem EachUpdated.cons_of_rewritten {p : Path} {rest : List Path} {d after last : Disk}
    {loc : Location} (hu : d.Unaliased (p :: rest)) (hfate : fate loose moved d p = .ok true)
    (hwritten : Rewritten loose moved d after p loc) (htree : d.SameTree after)
    (hothers : ∀ other, other ≠ loc → after.get? other = d.get? other)
    (h : EachUpdated loose moved rest after last) : EachUpdated loose moved (p :: rest) d last := by
  have hrest := get?_of_rewritten hu hwritten hothers
  have hfates : ∀ q ∈ rest, fate loose moved after q = fate loose moved d q :=
    fun q hq => fate_of_sameTree htree (hrest q hq).2
  refine ⟨htree.trans h.sameTree, fun q hq hchange => ?_, fun other hloc => ?_⟩
  · rcases List.mem_cons.1 hq with rfl | hq
    · obtain ⟨mode, bytes, text, hloc, hmay, htext, hne, hget⟩ := hwritten
      refine ⟨loc, mode, bytes, text, hloc, hmay, htext, hne, ?_⟩
      rw [h.kept loc fun q hq _ => htree.location? q ▸ (hrest q hq).1, hget]
    · obtain ⟨other, mode, bytes, text, hloc, hmay, htext, hne, hget⟩ :=
        h.rewritten q hq (hfates q hq ▸ hchange)
      rw [htree.locate (hrest q hq).2] at hloc
      exact ⟨other, mode, bytes, text, hloc, htree.keeps.mayRead mode ▸ hmay, htext, hne, hget⟩
  · have hne : other ≠ loc := by
      rintro rfl
      exact hloc p (by simp) hfate hwritten.location?
    rw [h.kept other fun q hq hchange => ?_, hothers other hne]
    rw [htree.location? q]
    exact hloc q (List.mem_cons_of_mem _ hq) (hfates q hq ▸ hchange)

/-! ## Runs -/

/-- What the update of every single file keeps is kept by a run. -/
theorem updateEach_keeps {R : Disk → Disk → Prop} (o : Options) (moved : List Moved)
    (hrefl : ∀ d, R d d) (htrans : ∀ {d after last}, R d after → R after last → R d last)
    (hfile : ∀ {p d changed after}, updateFile o.looseMentions moved p d = .ok (changed, after) →
      R d after) :
    ∀ (files : List Path) (d : Disk), R d (updateEach o moved files d).disk
  | [], d => hrefl d
  | p :: rest, d => by
    have ih := updateEach_keeps o moved hrefl htrans hfile rest
    rw [updateEach]
    cases hone : updateFile o.looseMentions moved p d with
    | error e =>
      cases o.onFailure with
      | skip => exact ih d
      | abort => exact hrefl d
    | ok x =>
      obtain ⟨changed, after⟩ := x
      have hkeeps := htrans (hfile hone) (ih after)
      cases changed <;> exact hkeeps

/-- An update of a list of files, wherever their paths lead and whatever becomes of them, changes
nothing but the bytes of regular files. -/
theorem keepsTree_updateEach (o : Options) (moved : List Moved) (files : List Path) (d : Disk) :
    d.SameTree (updateEach o moved files d).disk ∧
      (d.IsTree → (updateEach o moved files d).disk.IsTree) :=
  updateEach_keeps (R := fun d last => d.SameTree last ∧ (d.IsTree → last.IsTree)) o moved
    (fun d => ⟨.refl d, id⟩) (fun h h' => ⟨h.1.trans h'.1, h'.2 ∘ h.2⟩) sameTree_updateFile files d

/-- A run that skips failures updates each file as it would be updated by itself. -/
theorem updateEach_skip (loose : Bool) (moved : List Moved) : ∀ {files : List Path} {d : Disk},
    d.Unaliased files →
    (updateEach ⟨loose, .skip⟩ moved files d).result = .ok (summaryOn loose moved d files) ∧
      (updateEach ⟨loose, .skip⟩ moved files d).progress = files ∧
      EachUpdated loose moved files d (updateEach ⟨loose, .skip⟩ moved files d).disk
  | [], d, _ => ⟨rfl, rfl, .refl d, by simp, fun _ _ => rfl⟩
  | p :: rest, d, hu => by
    have hrest : d.Unaliased rest := (List.pairwise_cons.1 hu).2
    cases hfile : updateFile loose moved p d with
    | error e =>
      have hfate : fate loose moved d p = .error e := fate_eq_error_iff.2 hfile
      obtain ⟨hresult, hprogress, heach⟩ := updateEach_skip loose moved hrest
      simp only [updateEach, hfile, Update.after, hresult, hprogress, exceptMap_ok, true_and]
      refine ⟨?_, heach.cons_of_same (by simp [hfate])⟩
      simp [summaryOn, changes, failure?, hfate]
    | ok x =>
      obtain ⟨changed, after⟩ := x
      have hfate : fate loose moved d p = .ok changed := fate_eq_ok_iff.2 ⟨after, hfile⟩
      rcases updateFile_cases hfile with ⟨rfl, rfl, -⟩ | ⟨rfl, loc, hwritten, htree, -, hothers⟩
      · obtain ⟨hresult, hprogress, heach⟩ := updateEach_skip loose moved hrest
        simp only [updateEach, hfile, Update.after, hresult, hprogress, exceptMap_ok, true_and]
        refine ⟨?_, heach.cons_of_same (by simp [hfate])⟩
        simp [summaryOn, changes, failure?, hfate]
      · -- the other files are not the one that is written, so they fare as they would before
        obtain ⟨hresult, hprogress, heach⟩ := updateEach_skip loose moved (htree.unaliased.2 hrest)
        have hsummary : summaryOn loose moved after rest = summaryOn loose moved d rest :=
          summaryOn_congr fun q hq =>
            fate_of_sameTree htree (get?_of_rewritten hu hwritten hothers q hq).2
        rw [hsummary] at hresult
        simp only [updateEach, hfile, Update.after, hresult, hprogress, exceptMap_ok, true_and]
        refine ⟨?_, heach.cons_of_rewritten hu hfate hwritten htree hothers⟩
        simp [summaryOn, changes, failure?, hfate]

/-- A run that stops at the first failure is one that skips failures, on the files before it. -/
theorem updateEach_abort (loose : Bool) (moved : List Moved) : ∀ (files : List Path) (d : Disk),
    (updateEach ⟨loose, .abort⟩ moved files d = updateEach ⟨loose, .skip⟩ moved files d ∧
      ∃ s, (updateEach ⟨loose, .skip⟩ moved files d).result = .ok s ∧ s.failed = []) ∨
    ∃ before p rest e s, files = before ++ p :: rest ∧
      (updateEach ⟨loose, .skip⟩ moved before d).result = .ok s ∧ s.failed = [] ∧
      updateFile loose moved p (updateEach ⟨loose, .skip⟩ moved before d).disk = .error e ∧
      updateEach ⟨loose, .abort⟩ moved files d =
        ⟨.error (.update p e), before, (updateEach ⟨loose, .skip⟩ moved before d).disk⟩
  | [], d => Or.inl ⟨rfl, _, rfl, rfl⟩
  | p :: rest, d => by
    cases hfile : updateFile loose moved p d with
    | error e =>
      refine Or.inr ⟨[], p, rest, e, {}, rfl, rfl, rfl, hfile, ?_⟩
      simp only [updateEach, hfile]
    | ok x =>
      obtain ⟨changed, after⟩ := x
      -- the first file goes well, so the two runs put it in front of what happens after it
      obtain ⟨change, hchange, hcons⟩ : ∃ change : Summary → Summary,
          (∀ s, (change s).failed = s.failed) ∧ ∀ policy files,
          updateEach ⟨loose, policy⟩ moved (p :: files) d =
            (updateEach ⟨loose, policy⟩ moved files after).after p change := by
        cases changed
        · exact ⟨id, fun _ => rfl, fun policy files => by simp only [updateEach, hfile]⟩
        · exact ⟨fun s => { s with updated := p :: s.updated }, fun _ => rfl,
            fun policy files => by simp only [updateEach, hfile]⟩
      rcases updateEach_abort loose moved rest after with
        ⟨hsame, s, hresult, hfailed⟩ | ⟨before, f, later, e, s, rfl, hresult, hfailed, hf, habort⟩
      · refine Or.inl ⟨by rw [hcons, hcons, hsame], { change s with scanned := s.scanned + 1 }, ?_, ?_⟩
        · rw [hcons, Update.after, hresult]
          rfl
        · exact (hchange s).trans hfailed
      · refine Or.inr ⟨p :: before, f, later, e, { change s with scanned := s.scanned + 1 }, rfl,
          ?_, (hchange s).trans hfailed, ?_, ?_⟩
        · rw [hcons, Update.after, hresult]
          rfl
        · rw [hcons]
          exact hf
        · rw [hcons, hcons, habort]
          rfl

/-- Under either policy, a run updates the files of a list one by one, up to some of them. -/
theorem exists_eachUpdated (o : Options) (moved : List Moved) {files : List Path} {d : Disk}
    (hu : d.Unaliased files) : ∃ done, done <+: files ∧
      EachUpdated o.looseMentions moved done d (updateEach o moved files d).disk := by
  obtain ⟨loose, policy⟩ := o
  cases policy with
  | skip => exact ⟨files, List.prefix_rfl, (updateEach_skip loose moved hu).2.2⟩
  | abort =>
    rcases updateEach_abort loose moved files d with
      ⟨hsame, -⟩ | ⟨before, p, rest, e, s, rfl, -, -, -, habort⟩
    · rw [hsame]
      exact ⟨files, List.prefix_rfl, (updateEach_skip loose moved hu).2.2⟩
    · rw [habort]
      exact ⟨before, List.prefix_append _ _, (updateEach_skip loose moved (List.pairwise_append.1 hu).1).2.2⟩

/-- Nothing fails in a list of files if each can be updated by itself. -/
theorem failed_eq_nil_iff {files : List Path} {d : Disk} :
    (summaryOn loose moved d files).failed = [] ↔
      ∀ p ∈ files, ∃ x, updateFile loose moved p d = .ok x := by
  simp only [summaryOn, List.filterMap_eq_nil_iff]
  refine forall₂_congr fun p _ => ?_
  unfold failure? fate
  cases updateFile loose moved p d <;> simp

/-- A run in which nothing fails updates every file of a list, under either policy. -/
theorem updateEach_good {o : Options} {files : List Path} {d : Disk} (hu : d.Unaliased files)
    {s : Summary} (h : (updateEach o moved files d).result = .ok s) (hnone : s.failed = []) :
    EachUpdated o.looseMentions moved files d (updateEach o moved files d).disk ∧
      ∀ p ∈ files, ∃ x, updateFile o.looseMentions moved p d = .ok x := by
  obtain ⟨loose, policy⟩ := o
  have hskips : updateEach ⟨loose, policy⟩ moved files d = updateEach ⟨loose, .skip⟩ moved files d := by
    cases policy with
    | skip => rfl
    | abort =>
      rcases updateEach_abort loose moved files d with
        ⟨hsame, -⟩ | ⟨before, p, rest, e, t, -, -, -, -, habort⟩
      · exact hsame
      · simp [habort] at h
  obtain ⟨hresult, -, heach⟩ := updateEach_skip loose moved hu
  rw [hskips] at h ⊢
  obtain rfl := Except.ok.inj (hresult.symm.trans h)
  exact ⟨heach, failed_eq_nil_iff.1 hnone⟩

/-- A file that can be updated comes out with its text updated. -/
theorem EachUpdated.readText {files : List Path} {d last : Disk}
    (h : EachUpdated loose moved files d last) (hu : d.Unaliased files) {p : Path} (hp : p ∈ files)
    {x : Bool × Disk} (hx : updateFile loose moved p d = .ok x) :
    ∃ text, d.readText p = .ok text ∧ last.readText p = .ok (updatedText loose moved p text) := by
  obtain ⟨changed, after⟩ := x
  have hfate : fate loose moved d p = .ok changed := fate_eq_ok_iff.2 ⟨after, hx⟩
  rcases updateFile_cases hx with ⟨rfl, -, text, hread, hsame⟩ | ⟨rfl, -⟩
  · refine ⟨text, hread, ?_⟩
    have hleft : LeftAlone d last p := by
      refine h.leftAlone fun q hq hchange heq => hu.eq_none hq hp ?_ heq
      rintro rfl
      simp [hfate] at hchange
    rw [h.sameTree.readText hleft, hread, hsame]
  · obtain ⟨loc, mode, bytes, text, hlocate, hmay, htext, -, hget⟩ := h.rewritten p hp hfate
    refine ⟨text, readText_eq_ok_iff.2 ⟨loc, mode, bytes, hlocate, hmay, htext⟩,
      readText_eq_ok_iff.2 ⟨loc, mode, _, locate_eq_ok_iff.2 ⟨?_, hget⟩, ?_, fromUTF8?_toUTF8 _⟩⟩
    · rw [h.sameTree.resolve]
      exact (locate_eq_ok_iff.1 hlocate).1
    · rwa [h.sameTree.keeps.mayRead]

end SiteFolders.Reference
