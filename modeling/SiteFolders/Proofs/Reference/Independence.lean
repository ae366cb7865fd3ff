import SiteFolders.Proofs.Reference.Updates

/-!
# The order of files

An update that skips failures leaves the same disk, whatever the order of the files, and notes the
same files as updated and as failed. Each text file ends in one of three ways (`Ending`), and files
that are no text files are left alone.
-/

namespace SiteFolders.Reference

open Disk

variable {loose : Bool} {moved : List Moved}

/-- How an update can leave a text file. -/
inductive Ending where
  | updated
  | failed
  | unchanged

/-- What it means that a file ends in one way, for an update from `d` to `last` with a summary. -/
def EndsAs (loose : Bool) (moved : List Moved) (d last : Disk) (s : Summary) (p : Path) :
    Ending → Prop
  | .updated => p ∈ s.updated ∧ (∀ x ∈ s.failed, x.path ≠ p) ∧
      ∃ loc, Rewritten loose moved d last p loc
  | .failed => p ∉ s.updated ∧ (∃ e, ⟨p, .failed e⟩ ∈ s.failed) ∧ LeftAlone d last p
  | .unchanged => p ∉ s.updated ∧ (∀ x ∈ s.failed, x.path ≠ p) ∧ LeftAlone d last p

theorem mem_updated_iff {files : List Path} {d : Disk} {p : Path} :
    p ∈ (summaryOn loose moved d files).updated ↔ p ∈ files ∧ fate loose moved d p = .ok true := by
  rw [summaryOn, List.mem_filter, changes_iff]

theorem mem_failed_iff {files : List Path} {d : Disk} {s : Skip} :
    s ∈ (summaryOn loose moved d files).failed ↔
      s.path ∈ files ∧ ∃ e, fate loose moved d s.path = .error e ∧ s.cause = .failed e := by
  simp only [summaryOn, List.mem_filterMap, failure?_eq_some_iff]
  constructor
  · rintro ⟨p, hp, e, he, rfl⟩
    exact ⟨hp, e, he, rfl⟩
  · rintro ⟨hp, e, he, hcause⟩
    exact ⟨s.path, hp, e, he, by rw [← hcause]⟩

theorem summaryOn_perm (loose : Bool) (moved : List Moved) (d : Disk) {files files' : List Path}
    (h : files.Perm files') :
    (summaryOn loose moved d files').scanned = (summaryOn loose moved d files).scanned ∧
      (summaryOn loose moved d files).updated.Perm (summaryOn loose moved d files').updated ∧
      (summaryOn loose moved d files).failed.Perm (summaryOn loose moved d files').failed :=
  ⟨h.length_eq.symm, h.filter _, h.filterMap _⟩

/-- What becomes of a file decides how it ends, so it ends in one way only. -/
theorem exists_unique_ending {files : List Path} {d last : Disk} {p : Path} (hp : p ∈ files)
    (h : EachUpdated loose moved files d last)
    (hleft : fate loose moved d p ≠ .ok true → LeftAlone d last p) :
    ∃! ending, EndsAs loose moved d last (summaryOn loose moved d files) p ending := by
  have hupdated : p ∈ (summaryOn loose moved d files).updated ↔ fate loose moved d p = .ok true :=
    mem_updated_iff.trans (and_iff_right hp)
  -- the fate is an error, a change or no change, and each leaves one ending only
  cases hfate : fate loose moved d p with
  | error e =>
    have hfailed : ⟨p, .failed e⟩ ∈ (summaryOn loose moved d files).failed :=
      mem_failed_iff.2 ⟨hp, e, hfate, rfl⟩
    refine ⟨.failed, ⟨by simp [hupdated, hfate], ⟨e, hfailed⟩, hleft (by simp [hfate])⟩,
      fun ending hends => ?_⟩
    cases ending with
    | updated => exact absurd rfl (hends.2.1 _ hfailed)
    | failed => rfl
    | unchanged => exact absurd rfl (hends.2.1 _ hfailed)
  | ok changed =>
    have hfailed : ∀ x ∈ (summaryOn loose moved d files).failed, x.path ≠ p := by
      rintro x hx rfl
      obtain ⟨-, e, he, -⟩ := mem_failed_iff.1 hx
      simp [hfate] at he
    cases changed with
    | true =>
      refine ⟨.updated, ⟨hupdated.2 hfate, hfailed, h.rewritten p hp hfate⟩, fun ending hends => ?_⟩
      cases ending with
      | updated => rfl
      | failed => exact absurd (hupdated.2 hfate) hends.1
      | unchanged => exact absurd (hupdated.2 hfate) hends.1
    | false =>
      refine ⟨.unchanged, ⟨by simp [hupdated, hfate], hfailed, hleft (by simp [hfate])⟩,
        fun ending hends => ?_⟩
      cases ending with
      | updated => simpa [hfate] using hupdated.1 hends.1
      | failed =>
        obtain ⟨-, ⟨e, he⟩, -⟩ := hends
        exact absurd rfl (hfailed _ he)
      | unchanged => rfl

/-- The order of the files makes no difference to an update that skips failures. -/
theorem updateFiles_perm {files files' : List Path} {d : Disk} (hu : d.Unaliased files)
    (hperm : files.Perm files') :
    let r := updateFiles ⟨loose, .skip⟩ moved files d
    let r' := updateFiles ⟨loose, .skip⟩ moved files' d
    ∃ s s', r.result = .ok s ∧ r'.result = .ok s' ∧
      (∀ loc, r'.disk.get? loc = r.disk.get? loc) ∧ s'.scanned = s.scanned ∧
      s.updated.Perm s'.updated ∧ s.failed.Perm s'.failed ∧
      ∀ p ∈ files, (p.isText = true → ∃! ending, EndsAs loose moved d r.disk s p ending) ∧
        (p.isText = false → p ∉ s.updated ∧ (∀ x ∈ s.failed, x.path ≠ p) ∧
          LeftAlone d r.disk p) := by
  intro r r'
  have htexts : (files.filter Path.isText).Perm (files'.filter Path.isText) := hperm.filter _
  obtain ⟨hresult, -, heach⟩ := updateEach_skip loose moved (hu.filter Path.isText)
  obtain ⟨hresult', -, heach'⟩ :=
    updateEach_skip loose moved ((hu.perm hperm).filter Path.isText)
  obtain ⟨hscanned, hupdated, hfailed⟩ := summaryOn_perm loose moved d htexts
  -- a text file that is written is another one or the same as `p`, which then changes
  have hleft : ∀ p ∈ files, (p.isText = true → fate loose moved d p ≠ .ok true) →
      LeftAlone d r.disk p := by
    intro p hp hfate
    refine heach.leftAlone fun q hq hchange heq => ?_
    obtain ⟨hq, htext⟩ := List.mem_filter.1 hq
    refine hu.eq_none hq hp ?_ heq
    rintro rfl
    exact hfate htext hchange
  refine ⟨_, _, hresult, hresult', heach.get?_eq heach' fun p => htexts.mem_iff, hscanned, hupdated,
    hfailed, fun p hp => ⟨fun htext => ?_, fun htext => ?_⟩⟩
  · exact exists_unique_ending (List.mem_filter.2 ⟨hp, htext⟩) heach fun hfate =>
      hleft p hp fun _ => hfate
  · refine ⟨fun hmem => ?_, ?_, hleft p hp (by simp [htext])⟩
    · have hp' := (mem_updated_iff.1 hmem).1
      simp [htext] at hp'
    · rintro x hx rfl
      have hp' := (mem_failed_iff.1 hx).1
      simp [htext] at hp'

/-- Files of which one changes, one stays, one is missing and one is no text file. -/
def notesDisk : Disk where
  entries := [(["a.css"], .file 0o644 "url(logo.png)".toUTF8),
    (["b.html"], .file 0o644 "plain".toUTF8), (["c.txt"], .file 0o644 "logo.png".toUTF8)]

/-- The files to update. -/
def notesPaths : List Path := [⟨"/a.css"⟩, ⟨"/b.html"⟩, ⟨"/gone.js"⟩, ⟨"/c.txt"⟩]

/-- The file that has moved. -/
def notesMoved : List Moved := [⟨"logo.png", "img/logo.png", ⟨"/img/logo.png"⟩⟩]

theorem updateFiles_perm_of_notes :
    let r := updateFiles ⟨true, .skip⟩ notesMoved notesPaths notesDisk
    let r' := updateFiles ⟨true, .skip⟩ notesMoved notesPaths.reverse notesDisk
    ∃ s s', r.result = .ok s ∧ r'.result = .ok s' ∧
      (∀ loc, r'.disk.get? loc = r.disk.get? loc) ∧ s'.scanned = s.scanned ∧
      s.updated.Perm s'.updated ∧ s.failed.Perm s'.failed ∧
      ∀ p ∈ notesPaths,
        (p.isText = true → ∃! ending, EndsAs true notesMoved notesDisk r.disk s p ending) ∧
        (p.isText = false → p ∉ s.updated ∧ (∀ x ∈ s.failed, x.path ≠ p) ∧
          LeftAlone notesDisk r.disk p) :=
  updateFiles_perm (by decide +kernel) (List.reverse_perm _).symm

example : (updateFiles ⟨true, .skip⟩ notesMoved notesPaths notesDisk).result.toOption.map
    (fun s => (s.scanned, s.updated, s.failed)) =
      some (3, [⟨"/a.css"⟩], [⟨⟨"/gone.js"⟩, .failed .notFound⟩]) := by
  decide +kernel

end SiteFolders.Reference
