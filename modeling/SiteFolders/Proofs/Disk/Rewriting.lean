import SiteFolders.Proofs.Disk.Changes
import SiteFolders.Proofs.Disk.Locations

/-!
# Rewriting files

Giving a regular file new bytes leaves the tree as it is (`SameTree`), so every path leads where it
led before (`SameTree.resolve`), and the texts of all other files are read and written as before
(`SameTree.readText`, `SameTree.writeText`).
-/

namespace SiteFolders.Disk

/-- The disks have the same entries, up to the bytes of regular files. -/
structure SameTree (d d' : Disk) : Prop where
  privileged : d'.privileged = d.privileged
  workingDirectory : d'.workingDirectory = d.workingDirectory
  same : ∀ loc, d'.get? loc = d.get? loc ∨ ∃ mode bytes bytes',
    d.get? loc = some (.file mode bytes) ∧ d'.get? loc = some (.file mode bytes')

namespace SameTree

theorem refl (d : Disk) : d.SameTree d := ⟨rfl, rfl, fun _ => Or.inl rfl⟩

theorem symm {d d' : Disk} (h : d.SameTree d') : d'.SameTree d := by
  refine ⟨h.privileged.symm, h.workingDirectory.symm, fun loc => ?_⟩
  rcases h.same loc with hsame | ⟨mode, bytes, bytes', hfile, hfile'⟩
  · exact Or.inl hsame.symm
  · exact Or.inr ⟨mode, bytes', bytes, hfile', hfile⟩

theorem trans {d d' d'' : Disk} (h : d.SameTree d') (h' : d'.SameTree d'') : d.SameTree d'' := by
  refine ⟨h'.privileged.trans h.privileged, h'.workingDirectory.trans h.workingDirectory,
    fun loc => ?_⟩
  rcases h.same loc with hsame | ⟨mode, bytes, bytes', hfile, hfile'⟩
  · rw [← hsame]
    exact h'.same loc
  · rcases h'.same loc with hsame | ⟨mode', was, bytes'', hwas, hfile''⟩
    · exact Or.inr ⟨mode, bytes, bytes', hfile, hsame.trans hfile'⟩
    · rw [hfile', Option.some.injEq, Entry.file.injEq] at hwas
      exact Or.inr ⟨mode, bytes, bytes'', hfile, hwas.1 ▸ hfile''⟩

theorem keeps {d d' : Disk} (h : d.SameTree d') : d.Keeps d' := by
  refine ⟨h.privileged, h.workingDirectory, fun loc e he hfile => ?_⟩
  rcases h.same loc with hsame | ⟨mode, bytes, bytes', hwas, -⟩
  · rwa [hsame]
  · rw [hwas, Option.some.injEq] at he
    simp [← he, Entry.isFile] at hfile

/-- A regular file is one still. -/
theorem isFile {d d' : Disk} (h : d.SameTree d') {loc : Location} {e : Entry}
    (he : d.get? loc = some e) (hfile : e.isFile = true) :
    ∃ e', d'.get? loc = some e' ∧ e'.isFile = true := by
  rcases h.same loc with hsame | ⟨mode, bytes, bytes', -, hfile'⟩
  · exact ⟨e, hsame.trans he, hfile⟩
  · exact ⟨_, hfile', rfl⟩

end SameTree

section

variable {d : Disk} {loc : Location} {mode : Nat} {bytes : ByteArray}
  (h : d.get? loc = some (.file mode bytes)) (bytes' : ByteArray)
include h

theorem sameTree_put_file : d.SameTree (d.put loc (.file mode bytes')) := by
  refine ⟨rfl, rfl, fun other => ?_⟩
  by_cases heq : other = loc
  · subst heq
    cases other with
    | nil => simp at h
    | cons name dir => exact Or.inr ⟨mode, bytes, bytes', h, get?_put_self d name dir _⟩
  · exact Or.inl (get?_put_of_ne d _ heq)

theorem isTree_put_file (hd : d.IsTree) : (d.put loc (.file mode bytes')).IsTree := by
  have hne : loc ≠ [] := by
    rintro rfl
    simp at h
  have hhosts : ∀ other, d.Hosts other → (d.put loc (.file mode bytes')).Hosts other := by
    intro other hother
    cases other with
    | nil => exact hother
    | cons n dir => exact ⟨hother.1, hother.2.1, (sameTree_put_file h bytes').keeps.holdsDir hother.2.2⟩
  constructor
  · simp only [put, List.map_cons, List.nodup_cons]
    refine ⟨fun hmem => ?_, hd.nodup.sublist (List.filter_sublist.map _)⟩
    rcases List.mem_map.1 hmem with ⟨x, hx, rfl⟩
    simpa using (List.mem_filter.1 hx).2
  · intro x hx
    simp only [put, List.mem_cons] at hx
    rcases hx with rfl | hx
    · exact hhosts _ (hd.hosts_of_get? h hne)
    · exact hhosts _ (hd.hosted x (List.mem_filter.1 hx).1)
  · intro other hother
    rcases (sameTree_put_file h bytes').same other with hsame | ⟨_, _, _, -, hfile⟩
    · rw [hsame]
      exact hd.mounted other hother
    · exact Option.isSome_of_eq_some hfile

end

/-! ## Where paths lead

A path leads where it led before, since only directories and links decide that. -/

/-- The location of the entry that a path leads to. -/
def location? (d : Disk) (p : Path) : Option Location := (d.locate true p).toOption.map (·.1)

/-- No two paths of a list lead to one entry. -/
def Unaliased (d : Disk) (paths : List Path) : Prop :=
  paths.Pairwise fun p q => d.location? p = d.location? q → d.location? p = none

instance (d : Disk) (paths : List Path) : Decidable (d.Unaliased paths) :=
  inferInstanceAs (Decidable (paths.Pairwise _))

namespace Unaliased

variable {d : Disk} {paths paths' : List Path}

theorem perm (h : d.Unaliased paths) (hperm : paths.Perm paths') : d.Unaliased paths' :=
  List.Pairwise.perm h hperm fun hpq heq => heq ▸ hpq heq.symm

theorem eq_none (h : d.Unaliased paths) {p q : Path} (hp : p ∈ paths) (hq : q ∈ paths)
    (hne : p ≠ q) (heq : d.location? p = d.location? q) : d.location? p = none := by
  obtain ⟨first, rest, rfl⟩ := List.append_of_mem hp
  have hmem : q ∈ first ++ rest := by simpa [hne.symm] using hq
  have hfront : d.Unaliased (p :: (first ++ rest)) := h.perm List.perm_middle
  exact (List.pairwise_cons.1 hfront).1 q hmem heq

end Unaliased

theorem location?_eq_some_iff {d : Disk} {p : Path} {loc : Location} :
    d.location? p = some loc ↔ ∃ e, d.locate true p = .ok (loc, e) := by
  unfold location?
  cases d.locate true p <;> simp [Prod.ext_iff]

/-- The path of a location leads nowhere else. -/
theorem eq_of_location?_ofLocation {d : Disk} (hd : d.IsTree) {loc place : Location} {e : Entry}
    (he : d.get? loc = some e) (hlink : e.isLink = false)
    (h : d.location? (Path.ofLocation loc) = some place) : place = loc := by
  obtain ⟨e', hlocate⟩ := location?_eq_some_iff.1 h
  exact (Prod.mk.inj ((locate_ofLocation_iff hd he hlink true).1 hlocate).2.2).1

theorem unaliased_ofLocation {d : Disk} (hd : d.IsTree) {locs : List Location} (hnodup : locs.Nodup)
    (hentries : ∀ loc ∈ locs, ∃ e, d.get? loc = some e ∧ e.isLink = false) :
    d.Unaliased (locs.map Path.ofLocation) := by
  refine List.pairwise_map.2 (hnodup.imp_of_mem fun {a b} ha hb hne heq => ?_)
  obtain ⟨e, he, hlink⟩ := hentries a ha
  obtain ⟨e', he', hlink'⟩ := hentries b hb
  cases hplace : d.location? (Path.ofLocation a) with
  | none => rfl
  | some place =>
    have hsame := eq_of_location?_ofLocation hd he hlink hplace
    rw [hplace] at heq
    exact absurd (hsame.symm.trans (eq_of_location?_ofLocation hd he' hlink' heq.symm)) hne

namespace SameTree

variable {d d' : Disk} (h : d.SameTree d')
include h

theorem isSome (loc : Location) : (d'.get? loc).isSome = (d.get? loc).isSome := by
  rcases h.same loc with hsame | ⟨mode, bytes, bytes', hfile, hfile'⟩
  · rw [hsame]
  · rw [hfile, hfile']; rfl

theorem holdsDir (loc : Location) : d'.holdsDir loc = d.holdsDir loc := by
  rcases h.same loc with hsame | ⟨mode, bytes, bytes', hfile, hfile'⟩
  · simp only [Disk.holdsDir, hsame]
  · simp only [Disk.holdsDir, hfile, hfile']; rfl

theorem mayChange (loc : Location) : d'.mayChange loc = d.mayChange loc := by
  rcases h.same loc with hsame | ⟨mode, bytes, bytes', hfile, hfile'⟩
  · simp only [Disk.mayChange, hsame, h.keeps.mayWrite, h.keeps.maySearch]
  · simp only [Disk.mayChange, hfile, hfile', Option.any, Entry.mode, h.keeps.mayWrite,
      h.keeps.maySearch]

theorem stepThrough (follow : Bool)
    (jump : Location → String → List String → Except DiskError Place) :
    ∀ (ns : List String) (here : Location),
      d'.stepThrough follow jump here ns = d.stepThrough follow jump here ns
  | [], _ => rfl
  | name :: rest, here => by
    have ih := fun here => stepThrough follow jump rest here
    rcases h.same here with hhere | ⟨mode, bytes, bytes', hfile, hfile'⟩
    · rcases h.same (name :: here) with hnext | ⟨mode, bytes, bytes', hfile, hfile'⟩
      · simp only [Disk.stepThrough, hhere, hnext, ih, h.keeps.maySearch]
      · simp only [Disk.stepThrough, hhere, hfile, hfile', ih, h.keeps.maySearch]
    · simp only [Disk.stepThrough, hfile, hfile']

theorem resolveFrom {follow : Bool} : ∀ (links : Nat) (here : Location) (ns : List String),
    d'.resolveFrom follow links here ns = d.resolveFrom follow links here ns
  | 0, here, ns => h.stepThrough _ _ ns here
  | links + 1, here, ns => by
    have hjump : (fun (here : Location) (target : String) (rest : List String) =>
        d'.resolveFrom follow links (startOf target here) (targetNames target ++ rest)) =
          fun here target rest =>
            d.resolveFrom follow links (startOf target here) (targetNames target ++ rest) := by
      funext here target rest
      exact resolveFrom links _ _
    rw [Disk.resolveFrom, Disk.resolveFrom, hjump]
    exact h.stepThrough _ _ ns here

/-- Every path leads where it led. -/
theorem resolve (follow : Bool) (p : Path) : d'.resolve follow p = d.resolve follow p := by
  simp only [Disk.resolve, h.workingDirectory, h.resolveFrom, h.holdsDir]

theorem slot (p : Path) : d'.slot p = d.slot p := by
  unfold Disk.slot
  cases checkPath p with
  | error cause => rfl
  | ok _ =>
    simp only [ok_bind, h.workingDirectory, h.resolveFrom]
    cases (namesOf p.text).getLast? with
    | none => rfl
    | some last =>
      rcases d.resolveFrom true linkLimit (startOf p.text d.workingDirectory)
        (namesOf p.text).dropLast with cause | ⟨dir⟩ | ⟨dir, n⟩
      · rfl
      · rcases h.same dir with hsame | ⟨mode, bytes, bytes', hfile, hfile'⟩
        · simp only [ok_bind, hsame, h.keeps.maySearch]
        · simp only [ok_bind, hfile, hfile']
      · rfl

theorem asksForDir (links : Nat) (p : Path) :
    d'.asksForDir links p = d.asksForDir links p := by
  induction links generalizing d d' p with
  | zero => rfl
  | succ links ih =>
    rw [Disk.asksForDir, Disk.asksForDir, h.slot]
    rcases d.slot p with cause | ⟨dir, name | name⟩
    · rfl
    · rfl
    · rcases h.same (name :: dir) with hsame | ⟨mode, bytes, bytes', hfile, hfile'⟩
      · have hfrom : SameTree { d with workingDirectory := dir } { d' with workingDirectory := dir } :=
          ⟨h.privileged, rfl, h.same⟩
        simp only [hsame, ih hfrom]
      · simp only [hfile, hfile']

theorem openPlace (p : Path) : d'.openPlace p = d.openPlace p := by
  simp only [Disk.openPlace, h.resolve, h.asksForDir]

theorem location? (p : Path) : d'.location? p = d.location? p := by
  unfold Disk.location? locate
  rw [h.resolve]
  rcases d.resolve true p with cause | ⟨loc⟩ | ⟨dir, n⟩
  · rfl
  · have hsome := h.isSome loc
    cases hget : d.get? loc with
    | none =>
      have hget' : d'.get? loc = none := by simpa [hget] using hsome
      simp only [ok_bind, hget, hget']
    | some e =>
      obtain ⟨e', hget'⟩ := Option.isSome_iff_exists.1 (hsome.trans (by rw [hget]; rfl))
      simp only [ok_bind, hget, hget', pure_eq_ok, toOption_ok, Option.map]
  · rfl

theorem unaliased {paths : List Path} : d'.Unaliased paths ↔ d.Unaliased paths := by
  simp only [Unaliased, h.location?]

/-- A path leads to the same entry if that holds the same. -/
theorem locate {p : Path}
    (hsame : ∀ loc, d.location? p = some loc → d'.get? loc = d.get? loc) :
    d'.locate true p = d.locate true p := by
  unfold Disk.locate
  rw [h.resolve]
  rcases hplace : d.resolve true p with cause | ⟨loc⟩ | ⟨dir, n⟩
  · rfl
  · have hloc : d'.get? loc = d.get? loc := by
      cases hget : d.get? loc with
      | none => simpa [hget] using h.isSome loc
      | some e =>
        rw [← hget]
        exact hsame loc (location?_eq_some_iff.2 ⟨e, locate_eq_ok_iff.2 ⟨hplace, hget⟩⟩)
    simp only [ok_bind, hloc]
  · rfl

/-- A text is read as before if the file that the path leads to holds the same. -/
theorem readText {p : Path}
    (hsame : ∀ loc, d.location? p = some loc → d'.get? loc = d.get? loc) :
    d'.readText p = d.readText p := by
  simp only [Disk.readText, readBytes, h.locate hsame, h.keeps.mayRead]

/-- Whether a text can be written, and why not, does not depend on what regular files hold. -/
theorem writeText (p : Path) (text : String) :
    (d'.writeText p text).map (fun _ => ()) = (d.writeText p text).map fun _ => () := by
  unfold Disk.writeText store
  rw [h.openPlace]
  rcases d.openPlace p with cause | ⟨loc⟩ | ⟨dir, n⟩
  · rfl
  · simp only [ok_bind]
    split
    · rfl
    · rcases h.same loc with hsame | ⟨mode, bytes, bytes', hfile, hfile'⟩
      · simp only [hsame, h.keeps.mayWrite]
        split
        · split <;> rfl
        · rfl
      · simp only [hfile, hfile', h.keeps.mayWrite]
        split <;> rfl
  · simp only [ok_bind, h.mayChange]
    split
    · rfl
    · split <;> rfl

end SameTree

/-! ## Texts -/

theorem fromUTF8?_toUTF8 (text : String) : String.fromUTF8? text.toUTF8 = some text := by
  have hvalid : text.toUTF8.IsValidUTF8 := text.isValidUTF8
  rw [String.fromUTF8?, dif_pos hvalid]
  rfl

theorem toUTF8_of_fromUTF8? {bytes : ByteArray} {text : String}
    (h : String.fromUTF8? bytes = some text) : text.toUTF8 = bytes := by
  unfold String.fromUTF8? at h
  split at h
  · obtain rfl := Option.some.inj h
    rfl
  · simp at h

theorem readBytes_eq_ok_iff {d : Disk} {p : Path} {bytes : ByteArray} :
    d.readBytes p = .ok bytes ↔ ∃ loc mode, d.locate true p = .ok (loc, .file mode bytes) ∧
      d.mayRead mode = true := by
  unfold readBytes
  constructor
  · intro h
    obtain ⟨⟨loc, e⟩, hloc, h⟩ := bind_eq_ok_iff.1 h
    obtain ⟨hread, h⟩ := ite_error_eq_ok_iff.1 h
    cases e with
    | dir | link => simp at h
    | file mode found =>
      obtain rfl : found = bytes := by simpa using h
      exact ⟨loc, mode, hloc, by simpa [Entry.mode] using hread⟩
  · rintro ⟨loc, mode, hloc, hread⟩
    simp [hloc, Entry.mode, hread]

/-- A text is read from the bytes of the file that the path leads to. -/
theorem readText_eq_ok_iff {d : Disk} {p : Path} {text : String} :
    d.readText p = .ok text ↔ ∃ loc mode bytes, d.locate true p = .ok (loc, .file mode bytes) ∧
      d.mayRead mode = true ∧ String.fromUTF8? bytes = some text := by
  constructor
  · intro h
    obtain ⟨bytes, hbytes, h⟩ := bind_eq_ok_iff.1 h
    obtain ⟨loc, mode, hloc, hread⟩ := readBytes_eq_ok_iff.1 hbytes
    refine ⟨loc, mode, bytes, hloc, hread, ?_⟩
    split at h
    · next text' htext => rwa [← Except.ok.inj h]
    · simp at h
  · rintro ⟨loc, mode, bytes, hloc, hread, htext⟩
    simp [readText, readBytes_eq_ok_iff.2 ⟨loc, mode, hloc, hread⟩, htext]

/-- The text of a file is read from its bytes, where the path to it is open. -/
theorem readText_ofLocation_iff {d : Disk} (hd : d.IsTree) {loc : Location} {e : Entry}
    (he : d.get? loc = some e) (hlink : e.isLink = false) {text : String} :
    d.readText (Path.ofLocation loc) = .ok text ↔
      checkPath (Path.ofLocation loc) = .ok () ∧ d.Open loc ∧ ∃ mode bytes,
        e = .file mode bytes ∧ d.mayRead mode = true ∧ String.fromUTF8? bytes = some text := by
  rw [readText_eq_ok_iff]
  constructor
  · rintro ⟨loc', mode, bytes, hloc, hread, htext⟩
    obtain ⟨hcheck, hopen, heq⟩ := (locate_ofLocation_iff hd he hlink true).1 hloc
    obtain ⟨rfl, rfl⟩ := Prod.mk.inj heq
    exact ⟨hcheck, hopen, mode, bytes, rfl, hread, htext⟩
  · rintro ⟨hcheck, hopen, mode, bytes, rfl, hread, htext⟩
    exact ⟨loc, mode, bytes, (locate_ofLocation_iff hd he hlink true).2 ⟨hcheck, hopen, rfl⟩, hread,
      htext⟩

/-- A text that can be written where a file is found takes the place of its bytes. -/
theorem put_of_writeText {d d' : Disk} {p : Path} {loc : Location} {mode : Nat} {bytes : ByteArray}
    (hloc : d.locate true p = .ok (loc, .file mode bytes)) {text : String}
    (h : d.writeText p text = .ok d') : d' = d.put loc (.file mode text.toUTF8) := by
  obtain ⟨hres, he⟩ := locate_eq_ok_iff.1 hloc
  rcases store_eq_ok h with ⟨-, ⟨loc', old, was, hres', hold, rfl⟩ | ⟨dir, n, hres', -⟩⟩
  · obtain rfl : loc = loc' := by simpa [hres] using hres'
    rw [he, Option.some.injEq, Entry.file.injEq] at hold
    rw [hold.1]
    rfl
  · simp [hres] at hres'

/-- A file that is found elsewhere as it was could be read where it was. -/
theorem readText_of_keeps {d d' : Disk} (hd : d.IsTree) (hd' : d'.IsTree) (h : d.Keeps d')
    {old new : Location} {e : Entry} (hold : d.get? old = some e) (hnew : d'.get? new = some e)
    (hlink : e.isLink = false) (hcheck : checkPath (Path.ofLocation old) = .ok ())
    (hopen : d'.Open old) {text : String} (htext : d'.readText (Path.ofLocation new) = .ok text) :
    d.readText (Path.ofLocation old) = .ok text := by
  obtain ⟨-, -, mode, bytes, hfile, hread, hbytes⟩ :=
    (readText_ofLocation_iff hd' hnew hlink).1 htext
  rw [h.mayRead] at hread
  exact (readText_ofLocation_iff hd hold hlink).2
    ⟨hcheck, h.isOpen_of hd (by simp [hold]) hopen, mode, bytes, hfile, hread, hbytes⟩

end SiteFolders.Disk
