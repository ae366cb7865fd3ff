import SiteFolders.Proofs.Reference.Independence

/-!
# The two policies

An update that stops at the first failure and one that skips failures are the same as long as no
text file fails. If one does, the first of them ends the former, which has then done to the files
before it what the latter does to them, and nothing to the others.
-/

namespace SiteFolders.Reference

open Disk

variable {loose : Bool} {moved : List Moved}

/-- The part of a list before one of its text files has the text files before it. -/
theorem exists_split_of_texts {files before later : List Path} {f : Path}
    (h : files.filter Path.isText = before ++ f :: later) :
    ∃ front back, files = front ++ f :: back ∧ front.filter Path.isText = before ∧
      f.isText = true := by
  obtain ⟨start, tail, rfl, hstart, htail⟩ := List.filter_eq_append_iff.1 h
  obtain ⟨others, back, rfl, hothers, hf, -⟩ := List.filter_eq_cons_iff.1 htail
  refine ⟨start ++ others, back, by simp, ?_, hf⟩
  rw [List.filter_append, hstart, List.filter_eq_nil_iff.2 hothers, List.append_nil]

/-- The update of the files before some others leaves these alone, and they fare as they would at the
start. -/
theorem leftAlone_of_before {before rest : List Path} {d : Disk} (hu : d.Unaliased (before ++ rest))
    {p : Path} (hp : p ∈ rest) :
    LeftAlone d (updateFiles ⟨loose, .skip⟩ moved before d).disk p ∧
      fate loose moved (updateFiles ⟨loose, .skip⟩ moved before d).disk p = fate loose moved d p := by
  obtain ⟨hbefore, -, hacross⟩ := List.pairwise_append.1 hu
  obtain ⟨-, -, heach⟩ :=
    updateEach_skip loose moved (List.Pairwise.filter Path.isText hbefore)
  have hleft : LeftAlone d (updateFiles ⟨loose, .skip⟩ moved before d).disk p :=
    heach.leftAlone fun q hq _ => hacross q (List.mem_filter.1 hq).1 p hp
  exact ⟨hleft, fate_of_sameTree heach.sameTree hleft⟩

/-- The first note is on the first text file that cannot be updated. -/
theorem head?_failed {before later : List Path} {f : Path} {d : Disk} {e : DiskError}
    (hbefore : (summaryOn loose moved d (before.filter Path.isText)).failed = [])
    (htext : f.isText = true) (hf : fate loose moved d f = .error e) :
    (summaryOn loose moved d ((before ++ f :: later).filter Path.isText)).failed.head? =
      some ⟨f, .failed e⟩ := by
  have hnone : (before.filter Path.isText).filterMap (failure? loose moved d) = [] := hbefore
  rw [List.filter_append, List.filter_cons_of_pos htext, summaryOn]
  simp [hnone, failure?, hf]

/-- The two policies agree up to the first text file that cannot be updated. -/
theorem updateFiles_policies {files : List Path} {d : Disk} (hu : d.Unaliased files) :
    let skip := updateFiles ⟨loose, .skip⟩ moved files d
    let abort := updateFiles ⟨loose, .abort⟩ moved files d
    ∃ s, skip.result = .ok s ∧ skip.progress = files.filter Path.isText ∧
      s.scanned = skip.progress.length ∧
      (((∀ p ∈ files, p.isText = true → ∃ x, updateFile loose moved p d = .ok x) ∧
          s.failed = [] ∧ abort = skip) ∨
        ∃ before f later e, files = before ++ f :: later ∧ f.isText = true ∧
          (∀ p ∈ before, p.isText = true → ∃ x, updateFile loose moved p d = .ok x) ∧
          updateFile loose moved f d = .error e ∧ s.failed.head? = some ⟨f, .failed e⟩ ∧
          abort.result = .error (.update f e) ∧
          abort.disk = (updateFiles ⟨loose, .skip⟩ moved before d).disk ∧
          (∀ p ∈ f :: later, LeftAlone d abort.disk p) ∧
          abort.progress = before.filter Path.isText) := by
  intro skip abort
  obtain ⟨hresult, hprogress, -⟩ := updateEach_skip loose moved (hu.filter Path.isText)
  refine ⟨_, hresult, hprogress, (congrArg List.length hprogress).symm, ?_⟩
  rcases updateEach_abort loose moved (files.filter Path.isText) d with
    ⟨hsame, s, hs, hfailed⟩ | ⟨texts, f, rest, e, s, htexts, hs, hfailed, hf, habort⟩
  · obtain rfl : summaryOn loose moved d (files.filter Path.isText) = s := by
      simpa [hresult] using hs
    refine Or.inl ⟨fun p hp htext => ?_, hfailed, hsame⟩
    exact failed_eq_nil_iff.1 hfailed p (List.mem_filter.2 ⟨hp, htext⟩)
  · obtain ⟨before, later, rfl, rfl, htext⟩ := exists_split_of_texts htexts
    have hbefore : d.Unaliased before := (List.pairwise_append.1 hu).1
    obtain ⟨hresult', -, -⟩ := updateEach_skip loose moved (hbefore.filter Path.isText)
    obtain rfl : summaryOn loose moved d (before.filter Path.isText) = s := by
      simpa [hresult'] using hs
    have hleft : ∀ p ∈ f :: later, LeftAlone d
        (updateFiles ⟨loose, .skip⟩ moved before d).disk p :=
      fun p hp => (leftAlone_of_before hu hp).1
    -- the file that fails is as it was at the start, so it fails there too
    have hfate : fate loose moved d f = .error e :=
      (leftAlone_of_before hu (by simp)).2.symm.trans (fate_eq_error_iff.2 hf)
    refine Or.inr ⟨before, f, later, e, rfl, htext, fun p hp htext => ?_,
      fate_eq_error_iff.1 hfate, head?_failed hfailed htext hfate, ?_, ?_, fun p hp => ?_, ?_⟩
    · exact failed_eq_nil_iff.1 hfailed p (List.mem_filter.2 ⟨hp, htext⟩)
    · simp only [abort, updateFiles, habort]
    · simp only [abort, updateFiles, habort]
    · simpa only [abort, updateFiles, habort] using hleft p hp
    · simp only [abort, updateFiles, habort]

theorem updateFiles_policies_of_notes :
    let abort := updateFiles ⟨true, .abort⟩ notesMoved notesPaths notesDisk
    ∃ before later, notesPaths = before ++ ⟨"/gone.js"⟩ :: later ∧
      abort.result = .error (.update ⟨"/gone.js"⟩ .notFound) ∧
      abort.disk = (updateFiles ⟨true, .skip⟩ notesMoved before notesDisk).disk ∧
      ∀ p ∈ ⟨"/gone.js"⟩ :: later, LeftAlone notesDisk abort.disk p := by
  have hu : notesDisk.Unaliased notesPaths := by decide +kernel
  have hskip : (updateFiles ⟨true, .skip⟩ notesMoved notesPaths notesDisk).result.toOption.map
      (·.failed) = some [⟨⟨"/gone.js"⟩, .failed .notFound⟩] := by decide +kernel
  obtain ⟨s, hs, -, -, hcases⟩ := @updateFiles_policies true notesMoved _ _ hu
  have hfailed : s.failed = [⟨⟨"/gone.js"⟩, .failed .notFound⟩] := by
    simpa [hs, Except.toOption] using hskip
  rcases hcases with ⟨-, hnil, -⟩ | ⟨before, f, later, e, hsplit, -, -, -, hhead, hresult, hdisk,
    hleft, -⟩
  · simp [hfailed] at hnil
  · obtain ⟨rfl, rfl⟩ : ⟨"/gone.js"⟩ = f ∧ DiskError.notFound = e := by
      simpa [hfailed] using hhead
    exact ⟨before, later, hsplit, hresult, hdisk, hleft⟩

end SiteFolders.Reference
