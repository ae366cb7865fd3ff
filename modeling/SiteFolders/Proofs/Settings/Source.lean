import SiteFolders.Proofs.Disk.Rewriting
import SiteFolders.Proofs.Move.Plan
import SiteFolders.Settings.Load

/-!
# Where settings come from

A file that is named is the only one that is asked. Without one the project's own file comes first,
and whether it is there is found out by looking up what its path leads to. So an entry of its name is
overlooked if that fails (`Overlooked`): where the root may not be searched, under a path that is
too long, and for a link that leads nowhere. Any other entry decides alone: the settings are those of
its text, and there are none if it has no text or the text does not parse (`load_present`).
-/

namespace SiteFolders.Settings

open Disk Move

variable {d : Disk}

/-! ## One file -/

/-- A file gives settings if it can be read and its text parses. -/
theorem ofFile_eq_ok_iff {p : Path} {s : Settings} :
    ofFile d p = .ok s ↔ ∃ text, d.readText p = .ok text ∧ ofToml text = .ok s := by
  unfold ofFile
  constructor
  · intro h
    split at h
    · split at h
      · next text htext => exact ⟨text, htext, h⟩
      · simp at h
    · simp at h
  · rintro ⟨text, htext, hs⟩
    obtain ⟨loc, mode, bytes, hlocate, -⟩ := readText_eq_ok_iff.1 htext
    rw [if_pos (exists?_iff_locate.2 ⟨_, hlocate⟩), htext]
    exact hs

/-! ## The project's own file -/

theorem isName_localName : IsName localName := by decide +kernel

/-- An entry with the name of the project's own file in the directory of the root is taken for
missing: because nothing may be looked up there, because its path is refused, or because it is
a link that cannot be followed to its end. -/
inductive Overlooked (d : Disk) (root : Path) (dir : Location) : Prop
  | barred (h : ¬ d.Searchable dir)
  | refused (h : checkPath (root.join localName) ≠ .ok ())
  | astray {target : String} (hlink : d.get? (localName :: dir) = some (.link target))
      (h : ∀ x, d.locate true (root.join localName) ≠ .ok x)

section

variable {root : Path} {dir : Location} {e : Entry}

/-- An entry that is no link is found by the path of the file. -/
theorem locate_own (hroot : RootAt d root dir) (he : d.get? (localName :: dir) = some e)
    (hlink : e.isLink = false) (hsearch : d.Searchable dir)
    (hcheck : checkPath (root.join localName) = .ok ()) :
    d.locate true (root.join localName) = .ok (localName :: dir, e) := by
  have hreach := (hroot.reaches_join_iff isName_localName).2 ⟨hcheck, hsearch, rfl⟩
  have hslash := endsInSlash_join isName_localName root
  refine locate_eq_ok_iff.2 ⟨?_, he⟩
  rw [hreach.resolve hslash (by decide) true (by simpa [he] using hlink), he]
  rfl

/-- An entry of that name counts as present exactly if it is not overlooked. -/
theorem exists?_own_iff (hroot : RootAt d root dir) (he : d.get? (localName :: dir) = some e) :
    d.exists? (root.join localName) = true ↔ ¬ Overlooked d root dir := by
  rw [exists?_iff_locate]
  constructor
  · rintro ⟨⟨loc, found⟩, hlocate⟩ hover
    have hres := (locate_eq_ok_iff.1 hlocate).1
    have hlast : (namesOf (root.join localName).text).getLast? = some localName := by
      simp [namesOf_join isName_localName]
    obtain ⟨dir', hreach, -⟩ := reaches_of_resolve hlast isName_localName hres
    obtain ⟨hcheck, hsearch, -⟩ := (hroot.reaches_join_iff isName_localName).1 hreach
    cases hover with
    | barred h => exact h hsearch
    | refused h => exact h hcheck
    | astray hlink h => exact h _ hlocate
  · intro hover
    -- an entry that is not found is overlooked: barred, refused, or a link that leads astray
    by_contra hnone
    have hnone : ∀ x, d.locate true (root.join localName) ≠ .ok x := not_exists.1 hnone
    have hsearch : d.Searchable dir := by
      by_contra hbarred
      exact hover (.barred hbarred)
    have hcheck : checkPath (root.join localName) = .ok () := by
      by_contra hrefused
      exact hover (.refused hrefused)
    cases e with
    | link target => exact hover (.astray he hnone)
    | file mode bytes => exact hnone _ (locate_own hroot he rfl hsearch hcheck)
    | dir mode => exact hnone _ (locate_own hroot he rfl hsearch hcheck)

/-- The text of an entry with the name of the project's own file: a regular file has its own, a link
that of the file it leads to, and a directory has none. -/
inductive OwnText (d : Disk) (root : Path) : Entry → String → Prop
  | file {mode : Nat} {bytes : ByteArray} {text : String} (hread : d.mayRead mode = true)
      (htext : String.fromUTF8? bytes = some text) : OwnText d root (.file mode bytes) text
  | link {target text : String} {loc : Location} {mode : Nat} {bytes : ByteArray}
      (hlocate : d.locate true (root.join localName) = .ok (loc, .file mode bytes))
      (hread : d.mayRead mode = true) (htext : String.fromUTF8? bytes = some text) :
      OwnText d root (.link target) text

theorem readText_own_iff (hroot : RootAt d root dir) (he : d.get? (localName :: dir) = some e)
    (hover : ¬ Overlooked d root dir) {text : String} :
    d.readText (root.join localName) = .ok text ↔ OwnText d root e text := by
  have hfound : e.isLink = false →
      d.locate true (root.join localName) = .ok (localName :: dir, e) := by
    intro hlink
    refine locate_own hroot he hlink ?_ ?_
    · by_contra hbarred
      exact hover (.barred hbarred)
    · by_contra hrefused
      exact hover (.refused hrefused)
  rw [readText_eq_ok_iff]
  constructor
  · rintro ⟨loc, mode, bytes, hlocate, hread, htext⟩
    cases hlink : e.isLink with
    | true =>
      cases e with
      | link target => exact .link hlocate hread htext
      | file mode bytes => simp [Entry.isLink] at hlink
      | dir mode => simp [Entry.isLink] at hlink
    | false =>
      rw [hfound hlink, Except.ok.injEq, Prod.mk.injEq] at hlocate
      obtain ⟨-, rfl⟩ := hlocate
      exact .file hread htext
  · intro h
    cases h with
    | file hread htext => exact ⟨_, _, _, hfound rfl, hread, htext⟩
    | link hlocate hread htext => exact ⟨_, _, _, hlocate, hread, htext⟩

end

/-- If a file is named, the settings are those of its text, whatever other files there are. If none
is named and the root has an entry with the name of the project's own file which is not overlooked,
the settings are those of that entry's text. There are no others: where there is no such text, or it
does not parse, settings in the home directory and the standard values do not stand in. -/
theorem load_present (d : Disk) (home : Option String) (root : Path) :
    (∀ p s, load d home (some p) root = .ok s ↔
      ∃ text, d.readText p = .ok text ∧ ofToml text = .ok s) ∧
    ∀ dir e, RootAt d root dir → d.get? (localName :: dir) = some e → ¬ Overlooked d root dir →
      ∀ s, load d home none root = .ok s ↔ ∃ text, OwnText d root e text ∧ ofToml text = .ok s := by
  refine ⟨fun p s => ofFile_eq_ok_iff, fun dir e hroot he hover s => ?_⟩
  have hload : load d home none root = ofFile d (root.join localName) :=
    if_pos ((exists?_own_iff hroot he).2 hover)
  simp only [hload, ofFile_eq_ok_iff, readText_own_iff hroot he hover]

/-- A project with settings of its own, next to settings in the home directory. -/
def ownDisk : Disk where
  entries := [(["site"], .dir 0o755),
    ([localName, "site"], .file 0o644 "[organize]\nloose_mentions = false".toUTF8),
    (["home"], .dir 0o755), ([".config", "home"], .dir 0o755),
    (["webtidy", ".config", "home"], .dir 0o755),
    (["config.toml", "webtidy", ".config", "home"], .file 0o644 "".toUTF8)]

theorem load_present_of_ownDisk : RootAt ownDisk ⟨"/site"⟩ ["site"] ∧
    ¬ Overlooked ownDisk ⟨"/site"⟩ ["site"] ∧ ownDisk.exists? (homeFile "/home") = true ∧
    ∃ s, load ownDisk (some "/home") none ⟨"/site"⟩ = .ok s ∧ s.looseMentions = false := by
  have hroot : RootAt ownDisk ⟨"/site"⟩ ["site"] := ⟨by decide +kernel, by decide +kernel⟩
  have he : ownDisk.get? [localName, "site"] =
      some (.file 0o644 "[organize]\nloose_mentions = false".toUTF8) := rfl
  have hover : ¬ Overlooked ownDisk ⟨"/site"⟩ ["site"] := by
    rw [← exists?_own_iff hroot he]
    decide +kernel
  have hparse : ∃ s, ofToml "[organize]\nloose_mentions = false" = .ok s ∧
      s.looseMentions = false := by
    have hloose : (ofToml "[organize]\nloose_mentions = false").toOption.map (·.looseMentions) =
        some false := by decide +kernel
    obtain ⟨s, hs, hloose⟩ := Option.map_eq_some_iff.1 hloose
    exact ⟨s, toOption_eq_some_iff.1 hs, hloose⟩
  obtain ⟨s, hs, hloose⟩ := hparse
  have hown : OwnText ownDisk ⟨"/site"⟩
      (.file 0o644 "[organize]\nloose_mentions = false".toUTF8)
      "[organize]\nloose_mentions = false" := .file (by decide) (fromUTF8?_toUTF8 _)
  have hload := (load_present ownDisk (some "/home") ⟨"/site"⟩).2 ["site"] _ hroot he hover s
  exact ⟨hroot, hover, by decide +kernel, s, hload.2 ⟨_, hown, hs⟩, hloose⟩

/-- Two projects whose own settings are links: one leads to a missing file and one to itself. -/
def strayDisk : Disk where
  entries := [(["site"], .dir 0o755), ([localName, "site"], .link "shared.toml"),
    (["loop"], .dir 0o755), ([localName, "loop"], .link localName)]

/-- Links that lead nowhere are overlooked in favour of the standard values, although they are errors
when they are named. -/
theorem load_stray :
    RootAt strayDisk ⟨"/site"⟩ ["site"] ∧ RootAt strayDisk ⟨"/loop"⟩ ["loop"] ∧
    strayDisk.get? [localName, "site"] = some (.link "shared.toml") ∧
    strayDisk.get? [localName, "loop"] = some (.link localName) ∧
    ∀ root ∈ [(⟨"/site"⟩ : Path), ⟨"/loop"⟩], load strayDisk none none root = .ok {} ∧
      load strayDisk none (some (root.join localName)) root =
        .error (.notFound (root.join localName)) := by
  have hmissing : ∀ root ∈ [(⟨"/site"⟩ : Path), ⟨"/loop"⟩],
      strayDisk.exists? (root.join localName) = false := by decide +kernel
  refine ⟨⟨by decide +kernel, by decide +kernel⟩, ⟨by decide +kernel, by decide +kernel⟩, rfl, rfl,
    fun root hroot => ?_⟩
  simp [load, ofFile, hmissing root hroot]

end SiteFolders.Settings
