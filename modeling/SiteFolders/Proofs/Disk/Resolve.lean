import SiteFolders.Proofs.Disk.Tree
import SiteFolders.Proofs.Results

/-!
# How paths resolve

Resolving a path and then one more name is resolving the longer path (`resolveFrom_append`), also
where links are passed on the way. From this follows what a path with a name at its end leads to:
it reaches the name in a directory (`Reaches`), and every operation on the path looks there.

Resolution only looks at directories and links. So where these stay (`Keeps`), a path that leads to
a directory leads to it still (`Keeps.resolveFrom`).
-/

namespace SiteFolders.Disk

/-! ## Longer paths -/

/-- What the result of resolving the first names says about resolving all of them, where `ys` are
the names that are left. -/
def Continues (d : Disk) (follow : Bool) (ys : List String) (first whole : Except DiskError Place) :
    Prop :=
  match first with
  | .ok (.entry loc) => ∃ links, whole = d.resolveFrom follow links loc ys
  | .ok (.vacant _ _) => whole = .error .notFound
  | .error e => whole = .error e

theorem stepThrough_append {d : Disk} {follow : Bool} {ys : List String} (hys : ys ≠ [])
    {jump jump' : Location → String → List String → Except DiskError Place}
    (hjump : ∀ here target rest,
      d.Continues follow ys (jump here target rest) (jump' here target (rest ++ ys)))
    (hend : ∀ here, ∃ links, d.stepThrough follow jump' here ys = d.resolveFrom follow links here ys) :
    ∀ (xs : List String) (here : Location),
      d.Continues follow ys (d.stepThrough true jump here xs)
        (d.stepThrough follow jump' here (xs ++ ys))
  | [], here => hend here
  | name :: rest, here => by
    have ih := stepThrough_append hys hjump hend rest
    have hrest : (rest ++ ys).isEmpty = false := by simp [hys]
    simp only [List.cons_append, stepThrough, hrest]
    split
    · split
      · exact ih here
      · split
        · rfl
        · split
          · exact ih here
          · split
            · exact ih here.tail
            · split
              · rfl
              · split
                · -- nothing has this name: more names cannot follow it
                  cases rest <;> rfl
                · simpa using hjump here _ rest
                · exact ih (name :: here)
    · rfl

/-- The longer path goes on from where the shorter one leads. -/
theorem resolveFrom_append (d : Disk) (follow : Bool) {ys : List String} (hys : ys ≠ []) :
    ∀ (links : Nat) (here : Location) (xs : List String),
      d.Continues follow ys (d.resolveFrom true links here xs)
        (d.resolveFrom follow links here (xs ++ ys))
  | 0, here, xs => by
    refine stepThrough_append hys (fun _ _ _ => ?_) (fun _ => ⟨0, rfl⟩) xs here
    rfl
  | links + 1, here, xs => by
    refine stepThrough_append hys (fun here target rest => ?_) (fun _ => ⟨links + 1, rfl⟩) xs here
    rw [← List.append_assoc]
    exact resolveFrom_append d follow hys links _ _

/-- A directory in which the process may look names up. -/
def Searchable (d : Disk) (dir : Location) : Prop :=
  ∃ mode, d.get? dir = some (.dir mode) ∧ d.maySearch mode = true

theorem Searchable.holdsDir {d : Disk} {dir : Location} (h : d.Searchable dir) :
    d.holdsDir dir = true := by
  obtain ⟨mode, hmode, -⟩ := h
  exact holdsDir_iff.2 ⟨mode, hmode⟩

/-- A directory from which a name is gone through: the empty name only asks for a directory, and any
other one is for a directory that may be searched. -/
def LetsThrough (d : Disk) (dir : Location) (name : String) : Prop :=
  d.holdsDir dir = true ∧ (name ≠ "" → d.Searchable dir)

/-! ## One name -/

/-- A name that is looked up in a directory. -/
structure IsLookedUp (name : String) : Prop where
  ne_empty : name ≠ ""
  ne_dot : name ≠ "."
  ne_dots : name ≠ ".."
  length_le : name.utf8ByteSize ≤ nameLimit

theorem isLookedUp_of_isName {n : String} (hn : IsName n) (hlen : n.utf8ByteSize ≤ nameLimit) :
    IsLookedUp n :=
  ⟨hn.ne_empty, hn.ne_dot, hn.ne_dots, hlen⟩

/-- The ways in which one name is gone through. -/
inductive Passes (d : Disk) (follow : Bool)
    (jump : Location → String → List String → Except DiskError Place) (here : Location)
    (rest : List String) (place : Place) : String → Prop where
  /-- The end of a link's target that ends in a slash. -/
  | slash (hrest : d.stepThrough follow jump here rest = .ok place) :
    Passes d follow jump here rest place ""
  | dot (hrest : d.stepThrough follow jump here rest = .ok place) :
    Passes d follow jump here rest place "."
  | dots (hrest : d.stepThrough follow jump here.tail rest = .ok place) :
    Passes d follow jump here rest place ".."
  /-- A name at the end that is free. -/
  | vacant {name} (hname : IsLookedUp name) (hget : d.get? (name :: here) = none)
    (hrest : rest = []) (hplace : place = .vacant here name) :
    Passes d follow jump here rest place name
  /-- A link at the end that is not followed. -/
  | last {name target} (hname : IsLookedUp name) (hget : d.get? (name :: here) = some (.link target))
    (hrest : rest = []) (hfollow : follow = false) (hplace : place = .entry (name :: here)) :
    Passes d follow jump here rest place name
  /-- A link that is followed. -/
  | link {name target} (hname : IsLookedUp name) (hget : d.get? (name :: here) = some (.link target))
    (hfollow : (rest.isEmpty && !follow) = false) (hjump : jump here target rest = .ok place) :
    Passes d follow jump here rest place name
  /-- A file or a directory. -/
  | entry {name e} (hname : IsLookedUp name) (hget : d.get? (name :: here) = some e)
    (hlink : e.isLink = false) (hrest : d.stepThrough follow jump (name :: here) rest = .ok place) :
    Passes d follow jump here rest place name

section

variable {d : Disk} {follow : Bool}
  {jump : Location → String → List String → Except DiskError Place} {here : Location}
  {name : String} {rest : List String}

theorem stepThrough_slash (hdir : d.holdsDir here = true) :
    d.stepThrough follow jump here ("" :: rest) = d.stepThrough follow jump here rest := by
  obtain ⟨mode, hmode⟩ := holdsDir_iff.1 hdir
  simp [stepThrough, hmode]

section

variable (hsearch : d.Searchable here)
include hsearch

theorem stepThrough_dot :
    d.stepThrough follow jump here ("." :: rest) = d.stepThrough follow jump here rest := by
  obtain ⟨mode, hmode, hmay⟩ := hsearch
  simp [stepThrough, hmode, hmay]

theorem stepThrough_dots :
    d.stepThrough follow jump here (".." :: rest) = d.stepThrough follow jump here.tail rest := by
  obtain ⟨mode, hmode, hmay⟩ := hsearch
  simp [stepThrough, hmode, hmay]

variable (hname : IsLookedUp name)
include hname

theorem stepThrough_vacant (hget : d.get? (name :: here) = none) :
    d.stepThrough follow jump here (name :: rest) =
      if rest.isEmpty then .ok (.vacant here name) else .error .notFound := by
  obtain ⟨mode, hmode, hmay⟩ := hsearch
  have hlen := Nat.not_lt.2 hname.length_le
  simp [stepThrough, hmode, hmay, hname.ne_empty, hname.ne_dot, hname.ne_dots, hlen, hget]

theorem stepThrough_link {target : String} (hget : d.get? (name :: here) = some (.link target)) :
    d.stepThrough follow jump here (name :: rest) =
      if rest.isEmpty && !follow then .ok (.entry (name :: here)) else jump here target rest := by
  obtain ⟨mode, hmode, hmay⟩ := hsearch
  have hlen := Nat.not_lt.2 hname.length_le
  simp [stepThrough, hmode, hmay, hname.ne_empty, hname.ne_dot, hname.ne_dots, hlen, hget]

theorem stepThrough_entry {e : Entry} (hget : d.get? (name :: here) = some e)
    (hlink : e.isLink = false) :
    d.stepThrough follow jump here (name :: rest) =
      d.stepThrough follow jump (name :: here) rest := by
  obtain ⟨mode, hmode, hmay⟩ := hsearch
  have hlen := Nat.not_lt.2 hname.length_le
  cases e with
  | link target => simp [Entry.isLink] at hlink
  | file | dir =>
    rw [stepThrough, hmode]
    simp [hmay, hname.ne_empty, hname.ne_dot, hname.ne_dots, hlen, hget]

end

theorem letsThrough_of_stepThrough {place : Place}
    (h : d.stepThrough follow jump here (name :: rest) = .ok place) : d.LetsThrough here name := by
  simp only [stepThrough] at h
  split at h
  · next mode hmode =>
    refine ⟨holdsDir_iff.2 ⟨mode, hmode⟩, fun hne => ?_⟩
    rw [if_neg hne] at h
    exact ⟨mode, hmode, by simpa using (ite_error_eq_ok_iff.1 h).1⟩
  · simp at h

theorem passes_of_stepThrough {place : Place}
    (h : d.stepThrough follow jump here (name :: rest) = .ok place) :
    d.Passes follow jump here rest place name := by
  have hlets := letsThrough_of_stepThrough h
  by_cases hempty : name = ""
  · subst hempty
    exact .slash (stepThrough_slash hlets.1 ▸ h)
  have hsearch := hlets.2 hempty
  by_cases hdot : name = "."
  · subst hdot
    exact .dot (stepThrough_dot hsearch ▸ h)
  by_cases hdots : name = ".."
  · subst hdots
    exact .dots (stepThrough_dots hsearch ▸ h)
  -- a name that is too long is refused before it is looked up
  have hlen : name.utf8ByteSize ≤ nameLimit := by
    by_contra hlong
    obtain ⟨mode, hmode, hmay⟩ := hsearch
    simp [stepThrough, hmode, hmay, hempty, hdot, hdots, Nat.not_le.1 hlong] at h
  have hname : IsLookedUp name := ⟨hempty, hdot, hdots, hlen⟩
  cases hget : d.get? (name :: here) with
  | none =>
    rw [stepThrough_vacant hsearch hname hget] at h
    split at h
    · next hrest => exact .vacant hname hget (by simpa using hrest) (Except.ok.inj h).symm
    · simp at h
  | some e =>
    cases e with
    | file | dir => exact .entry hname hget rfl (stepThrough_entry hsearch hname hget rfl ▸ h)
    | link target =>
      rw [stepThrough_link hsearch hname hget] at h
      split at h
      · next hlast =>
        obtain ⟨hrest, hfollow⟩ : rest = [] ∧ follow = false := by simpa using hlast
        exact .last hname hget hrest hfollow (Except.ok.inj h).symm
      · next hfollow => exact .link hname hget (by simpa using hfollow) h

theorem Passes.stepThrough {place : Place} (hlets : d.LetsThrough here name)
    (h : d.Passes follow jump here rest place name) :
    d.stepThrough follow jump here (name :: rest) = .ok place := by
  obtain ⟨hdir, hsearch⟩ := hlets
  cases h with
  | slash hrest => rwa [stepThrough_slash hdir]
  | dot hrest => rwa [stepThrough_dot (hsearch (by simp))]
  | dots hrest => rwa [stepThrough_dots (hsearch (by simp))]
  | vacant hname hget hrest hplace =>
    rw [stepThrough_vacant (hsearch hname.ne_empty) hname hget, hrest, hplace]
    rfl
  | last hname hget hrest hfollow hplace =>
    rw [stepThrough_link (hsearch hname.ne_empty) hname hget, hrest, hfollow, hplace]
    rfl
  | link hname hget hfollow hjump =>
    rw [stepThrough_link (hsearch hname.ne_empty) hname hget, hfollow]
    exact hjump
  | entry hname hget hlink hrest =>
    rwa [stepThrough_entry (hsearch hname.ne_empty) hname hget hlink]

/-- Names are gone through one after another, from a directory that lets each of them through. -/
theorem stepThrough_cons_eq_ok_iff {place : Place} :
    d.stepThrough follow jump here (name :: rest) = .ok place ↔
      d.LetsThrough here name ∧ d.Passes follow jump here rest place name :=
  ⟨fun h => ⟨letsThrough_of_stepThrough h, passes_of_stepThrough h⟩, fun h => h.2.stepThrough h.1⟩

/-- A name that is looked up last leads to its entry, or it is free. -/
theorem stepThrough_name (hname : IsName name) (hsearch : d.Searchable here)
    (hlen : name.utf8ByteSize ≤ nameLimit)
    (hlink : follow = true → (d.get? (name :: here)).any Entry.isLink = false) :
    d.stepThrough follow jump here [name] =
      .ok (if (d.get? (name :: here)).isSome then .entry (name :: here) else .vacant here name) := by
  have hlooked := isLookedUp_of_isName hname hlen
  cases hget : d.get? (name :: here) with
  | none => exact stepThrough_vacant hsearch hlooked hget
  | some e =>
    cases e with
    | file | dir => exact stepThrough_entry hsearch hlooked hget rfl
    | link target =>
      cases follow with
      | false => exact stepThrough_link hsearch hlooked hget
      | true => simp [hget, Entry.isLink] at hlink

theorem of_stepThrough_name (hname : IsName name) {place : Place}
    (h : d.stepThrough follow jump here [name] = .ok place) :
    d.Searchable here ∧ name.utf8ByteSize ≤ nameLimit := by
  obtain ⟨hlets, hpasses⟩ := stepThrough_cons_eq_ok_iff.1 h
  have hsearch := hlets.2 hname.ne_empty
  cases hpasses with
  | slash => exact absurd rfl hname.ne_empty
  | dot => exact absurd rfl hname.ne_dot
  | dots => exact absurd rfl hname.ne_dots
  | vacant hlooked | last hlooked | link hlooked | entry hlooked =>
    exact ⟨hsearch, hlooked.length_le⟩

/-- How many links may be passed makes no difference for a name that is no link. -/
theorem resolveFrom_name (links : Nat) (hname : IsName name) (hsearch : d.Searchable here)
    (hlen : name.utf8ByteSize ≤ nameLimit)
    (hlink : follow = true → (d.get? (name :: here)).any Entry.isLink = false) :
    d.resolveFrom follow links here [name] =
      .ok (if (d.get? (name :: here)).isSome then .entry (name :: here) else .vacant here name) := by
  cases links <;> exact stepThrough_name hname hsearch hlen hlink

theorem of_resolveFrom_name {links : Nat} (hname : IsName name) {place : Place}
    (h : d.resolveFrom follow links here [name] = .ok place) :
    d.Searchable here ∧ name.utf8ByteSize ≤ nameLimit := by
  cases links <;> exact of_stepThrough_name hname h

end

/-! ## Paths that end in a name -/

theorem empty_notMem_namesOf (text : String) : "" ∉ namesOf text := by
  simp [namesOf]

theorem isName_of_mem_namesOf {text n : String} (h : n ∈ namesOf text) (hdot : n ≠ ".")
    (hdots : n ≠ "..") : IsName n := by
  rcases List.mem_filter.1 h with ⟨hmem, hne⟩
  exact ⟨by simpa using hne, Path.no_slash_of_mem_segmentsOf hmem, hdot, hdots⟩

/-- The names of a path lead to a directory that may be searched, and then there is one more. -/
structure Reaches (d : Disk) (p : Path) (dir : Location) (n : String) : Prop where
  checked : checkPath p = .ok ()
  name : IsName n
  searchable : d.Searchable dir
  leads : ∃ init, namesOf p.text = init ++ [n] ∧
    d.resolveFrom true linkLimit (startOf p.text d.workingDirectory) init = .ok (.entry dir)

theorem reaches_of_slot {d : Disk} {p : Path} {dir : Location} {n : String}
    (h : d.slot p = .ok (dir, some n)) : d.Reaches p dir n := by
  obtain ⟨⟨⟩, hcheck, h⟩ := bind_eq_ok_iff.1 h
  cases hlast : (namesOf p.text).getLast? with
  | none => simp [hlast] at h
  | some last =>
    obtain ⟨init, hinit⟩ := List.getLast?_eq_some_iff.1 hlast
    simp only [hlast] at h
    obtain ⟨place, hplace, h⟩ := bind_eq_ok_iff.1 h
    rw [hinit, List.dropLast_concat] at hplace
    cases place with
    | vacant => simp at h
    | entry here =>
      -- the directory may be searched, and the last name is no dots
      simp only at h
      split at h
      · next mode hmode =>
        obtain ⟨hmay, h⟩ := ite_error_eq_ok_iff.1 h
        split at h
        · simp at h
        · next hdots =>
          obtain ⟨rfl, rfl⟩ : here = dir ∧ last = n := by simpa using h
          rw [not_or] at hdots
          have hmem : last ∈ namesOf p.text := by simp [hinit]
          exact ⟨hcheck, isName_of_mem_namesOf hmem hdots.1 hdots.2,
            ⟨mode, hmode, by simpa using hmay⟩, init, hinit, hplace⟩
      · simp at h

theorem Reaches.slot {d : Disk} {p : Path} {dir : Location} {n : String} (h : d.Reaches p dir n) :
    d.slot p = .ok (dir, some n) := by
  obtain ⟨init, hinit, hdir⟩ := h.leads
  obtain ⟨mode, hmode, hsearch⟩ := h.searchable
  simp [Disk.slot, h.checked, hinit, hdir, hmode, hsearch, h.name.ne_dot, h.name.ne_dots]

theorem entryIn_eq_ok_iff {d : Disk} {dir : Location} {n : String} {found : Option Entry} :
    d.entryIn dir n = .ok found ↔ n.utf8ByteSize ≤ nameLimit ∧ found = d.get? (n :: dir) := by
  unfold entryIn
  split
  · next hlong => simp [Nat.not_le.2 hlong]
  · next hlen => simp [Nat.not_lt.1 hlen, eq_comm]

theorem entryIn_of_le {d : Disk} {dir : Location} {n : String} (hlen : n.utf8ByteSize ≤ nameLimit) :
    d.entryIn dir n = .ok (d.get? (n :: dir)) :=
  entryIn_eq_ok_iff.2 ⟨hlen, rfl⟩

/-- One path reaches one name in one directory. -/
theorem Reaches.unique {d : Disk} {p : Path} {dir dir' : Location} {n n' : String}
    (h : d.Reaches p dir n) (h' : d.Reaches p dir' n') : dir = dir' ∧ n = n' := by
  have hslot := h.slot
  rw [h'.slot] at hslot
  simpa [eq_comm] using hslot

/-- A path leads to a location if its names reach it, whether anything is there or not. -/
def LeadsTo (d : Disk) (p : Path) (loc : Location) : Prop :=
  ∃ dir n, loc = n :: dir ∧ n.utf8ByteSize ≤ nameLimit ∧ d.Reaches p dir n

theorem LeadsTo.unique {d : Disk} {p : Path} {loc loc' : Location} (h : d.LeadsTo p loc)
    (h' : d.LeadsTo p loc') : loc = loc' := by
  rcases h with ⟨dir, n, rfl, -, hreach⟩
  rcases h' with ⟨dir', n', rfl, -, hreach'⟩
  rcases hreach.unique hreach' with ⟨rfl, rfl⟩
  rfl

/-! ## What a path leads to -/

theorem resolve_eq_ok_iff {d : Disk} {follow : Bool} {p : Path} {place : Place} :
    d.resolve follow p = .ok place ↔
      checkPath p = .ok () ∧
      d.resolveFrom (follow || endsInSlash p) linkLimit (startOf p.text d.workingDirectory)
        (namesOf p.text) = .ok place ∧
      ∀ loc, place = .entry loc → endsInSlash p = true → d.holdsDir loc = true := by
  unfold resolve
  constructor
  · intro h
    obtain ⟨⟨⟩, hcheck, h⟩ := bind_eq_ok_iff.1 h
    obtain ⟨found, hfound, h⟩ := bind_eq_ok_iff.1 h
    cases found with
    | vacant dir n =>
      obtain rfl := Except.ok.inj h
      exact ⟨hcheck, hfound, by simp⟩
    | entry loc =>
      obtain ⟨hslash, h⟩ := ite_error_eq_ok_iff.1 h
      obtain rfl := Except.ok.inj h
      refine ⟨hcheck, hfound, fun loc' heq hend => ?_⟩
      rw [← Place.entry.inj heq]
      simpa [hend] using hslash
  · rintro ⟨hcheck, hfrom, hdir⟩
    refine bind_eq_ok_iff.2 ⟨(), hcheck, bind_eq_ok_iff.2 ⟨place, hfrom, ?_⟩⟩
    cases place with
    | vacant dir n => rfl
    | entry loc => exact if_neg (by simpa using hdir loc rfl)

theorem locate_eq_ok_iff {d : Disk} {follow : Bool} {p : Path} {loc : Location} {e : Entry} :
    d.locate follow p = .ok (loc, e) ↔
      d.resolve follow p = .ok (.entry loc) ∧ d.get? loc = some e := by
  unfold locate
  rw [bind_eq_ok_iff]
  constructor
  · rintro ⟨place, hplace, h⟩
    cases place with
    | vacant => simp at h
    | entry found =>
      simp only at h
      split at h
      · next e' hget =>
        obtain ⟨rfl, rfl⟩ : found = loc ∧ e' = e := by simpa using h
        exact ⟨hplace, hget⟩
      · simp at h
  · rintro ⟨hplace, hget⟩
    exact ⟨.entry loc, hplace, by simp [hget]⟩

theorem stat_eq_ok_iff {d : Disk} {p : Path} {e : Entry} :
    d.stat p = .ok e ↔ ∃ loc, d.locate true p = .ok (loc, e) := by
  simp [stat, map_eq_ok_iff]

theorem lstat_eq_ok_iff {d : Disk} {p : Path} {e : Entry} :
    d.lstat p = .ok e ↔ ∃ loc, d.locate false p = .ok (loc, e) := by
  simp [lstat, map_eq_ok_iff]

theorem isOccupied_iff_locate {d : Disk} {p : Path} :
    d.isOccupied p = true ↔ ∃ x, d.locate false p = .ok x := by
  unfold isOccupied lstat
  cases d.locate false p <;> simp

theorem exists?_iff_locate {d : Disk} {p : Path} :
    d.exists? p = true ↔ ∃ x, d.locate true p = .ok x := by
  unfold exists? stat
  cases d.locate true p <;> simp

theorem isDir_iff_locate {d : Disk} {p : Path} :
    d.isDir p = true ↔ ∃ loc mode, d.locate true p = .ok (loc, .dir mode) := by
  unfold isDir stat
  cases d.locate true p with
  | error e => simp
  | ok x =>
    obtain ⟨loc, e⟩ := x
    cases e <;> simp [Entry.isDir]

theorem readDir_eq_ok_iff {d : Disk} {p : Path} {entries : List (String × Entry)} :
    d.readDir p = .ok entries ↔ ∃ loc mode, d.locate true p = .ok (loc, .dir mode) ∧
      d.mayRead mode = true ∧ entries = d.children loc := by
  unfold readDir
  rw [bind_eq_ok_iff]
  constructor
  · rintro ⟨⟨loc, e⟩, hloc, h⟩
    cases e with
    | file | link => simp at h
    | dir mode =>
      obtain ⟨hmay, h⟩ := ite_else_error_eq_ok_iff.1 h
      exact ⟨loc, mode, hloc, hmay, (Except.ok.inj h).symm⟩
  · rintro ⟨loc, mode, hloc, hmay, rfl⟩
    exact ⟨(loc, .dir mode), hloc, by simp [hmay]⟩

section Last

variable {d : Disk} {p : Path} {n : String}

/-- A path that leads anywhere, also to a place that is still free, reaches the name it ends in. -/
theorem reaches_of_resolve (hlast : (namesOf p.text).getLast? = some n) (hn : IsName n)
    {follow : Bool} {place : Place} (h : d.resolve follow p = .ok place) :
    ∃ dir, d.Reaches p dir n ∧ n.utf8ByteSize ≤ nameLimit := by
  rcases resolve_eq_ok_iff.1 h with ⟨hcheck, hfrom, -⟩
  rcases List.getLast?_eq_some_iff.1 hlast with ⟨init, hinit⟩
  have happend := resolveFrom_append d (follow || endsInSlash p) (List.cons_ne_nil n []) linkLimit
    (startOf p.text d.workingDirectory) init
  rw [← hinit, hfrom] at happend
  unfold Continues at happend
  split at happend
  · next dir hdir =>
    rcases happend with ⟨links, hlinks⟩
    have hname := of_resolveFrom_name hn hlinks.symm
    exact ⟨dir, ⟨hcheck, hn, hname.1, init, hinit, hdir⟩, hname.2⟩
  · simp at happend
  · simp at happend

/-- What the names of a path lead to that reaches a name which is free or no link. -/
theorem Reaches.resolveFrom {dir : Location} (h : d.Reaches p dir n)
    (hlen : n.utf8ByteSize ≤ nameLimit) (follow : Bool)
    (hlink : follow = true → (d.get? (n :: dir)).any Entry.isLink = false) :
    d.resolveFrom follow linkLimit (startOf p.text d.workingDirectory) (namesOf p.text) =
      .ok (if (d.get? (n :: dir)).isSome then .entry (n :: dir) else .vacant dir n) := by
  rcases h.leads with ⟨init, hinit, hdir⟩
  have happend := resolveFrom_append d follow (List.cons_ne_nil n []) linkLimit
    (startOf p.text d.workingDirectory) init
  rw [← hinit, hdir] at happend
  obtain ⟨links, hlinks⟩ := happend
  rw [hlinks]
  exact resolveFrom_name links h.name h.searchable hlen hlink

/-- A name that is free is free also for a path that ends in a slash. -/
theorem Reaches.resolve_vacant {dir : Location} (h : d.Reaches p dir n)
    (hlen : n.utf8ByteSize ≤ nameLimit) (hvacant : d.get? (n :: dir) = none) (follow : Bool) :
    d.resolve follow p = .ok (.vacant dir n) := by
  have hfrom := h.resolveFrom hlen (follow || endsInSlash p) (by simp [hvacant])
  rw [hvacant] at hfrom
  exact resolve_eq_ok_iff.2 ⟨h.checked, hfrom, by simp⟩

/-- A directory is found also by a path that ends in a slash. -/
theorem Reaches.resolve_dir {dir : Location} (h : d.Reaches p dir n)
    (hlen : n.utf8ByteSize ≤ nameLimit) {mode : Nat} (hmode : d.get? (n :: dir) = some (.dir mode))
    (follow : Bool) : d.resolve follow p = .ok (.entry (n :: dir)) := by
  have hfrom := h.resolveFrom hlen (follow || endsInSlash p) (by simp [hmode, Entry.isLink])
  rw [hmode] at hfrom
  refine resolve_eq_ok_iff.2 ⟨h.checked, hfrom, fun loc heq _ => ?_⟩
  rw [← Place.entry.inj heq]
  exact holdsDir_iff.2 ⟨mode, hmode⟩

variable (hslash : endsInSlash p = false)
include hslash

/-- What resolving gives for a path that reaches a name which is free or no link. -/
theorem Reaches.resolve {dir : Location} (h : d.Reaches p dir n)
    (hlen : n.utf8ByteSize ≤ nameLimit) (follow : Bool)
    (hlink : follow = true → (d.get? (n :: dir)).any Entry.isLink = false) :
    d.resolve follow p =
      .ok (if (d.get? (n :: dir)).isSome then .entry (n :: dir) else .vacant dir n) := by
  refine resolve_eq_ok_iff.2 ⟨h.checked, ?_, by simp [hslash]⟩
  rw [hslash, Bool.or_false, h.resolveFrom hlen follow hlink]

/-- Looking at the entry itself at the end of a path. -/
theorem locate_false_eq_ok_iff {dir : Location} (h : d.Reaches p dir n) {loc : Location}
    {e : Entry} :
    d.locate false p = .ok (loc, e) ↔
      n.utf8ByteSize ≤ nameLimit ∧ loc = n :: dir ∧ d.get? loc = some e := by
  rw [locate_eq_ok_iff]
  have hlast : (namesOf p.text).getLast? = some n := by
    rcases h.leads with ⟨init, hinit, -⟩
    simp [hinit]
  constructor
  · rintro ⟨hres, hget⟩
    rcases reaches_of_resolve hlast h.name hres with ⟨dir', hreach, hlen⟩
    rcases h.unique hreach with ⟨rfl, -⟩
    rw [h.resolve hslash hlen false (by simp)] at hres
    refine ⟨hlen, ?_, hget⟩
    split at hres
    · simpa [eq_comm] using hres
    · simp at hres
  · rintro ⟨hlen, rfl, hget⟩
    refine ⟨?_, hget⟩
    rw [h.resolve hslash hlen false (by simp), hget]
    rfl

/-- A path that reaches a name is occupied if the name is. -/
theorem isOccupied_iff {dir : Location} (h : d.Reaches p dir n) :
    d.isOccupied p = true ↔ n.utf8ByteSize ≤ nameLimit ∧ (d.get? (n :: dir)).isSome := by
  rw [isOccupied_iff_locate]
  constructor
  · rintro ⟨⟨loc, e⟩, hloc⟩
    obtain ⟨hlen, rfl, hget⟩ := (locate_false_eq_ok_iff hslash h).1 hloc
    exact ⟨hlen, by rw [hget]; rfl⟩
  · rintro ⟨hlen, hsome⟩
    obtain ⟨e, he⟩ := Option.isSome_iff_exists.1 hsome
    exact ⟨_, (locate_false_eq_ok_iff hslash h).2 ⟨hlen, rfl, he⟩⟩

theorem LeadsTo.locate {loc : Location} {e : Entry} (h : d.LeadsTo p loc)
    (he : d.get? loc = some e) : d.locate false p = .ok (loc, e) := by
  rcases h with ⟨dir, n, rfl, hlen, hreach⟩
  exact (locate_false_eq_ok_iff hslash hreach).2 ⟨hlen, rfl, he⟩

end Last

/-- A joined path reaches its name in the directory that the path before it leads to. -/
theorem reaches_join_iff {d : Disk} {p : Path} {n : String} {dir : Location} (hn : IsName n) :
    d.Reaches (p.join n) dir n ↔
      checkPath (p.join n) = .ok () ∧ d.Searchable dir ∧
      d.resolveFrom true linkLimit (startOf p.text d.workingDirectory) (namesOf p.text) =
        .ok (.entry dir) := by
  constructor
  · rintro ⟨hcheck, -, hsearch, init, hinit, hdir⟩
    rw [namesOf_join hn] at hinit
    rw [startOf_join hn, ← List.append_cancel_right hinit] at hdir
    exact ⟨hcheck, hsearch, hdir⟩
  · rintro ⟨hcheck, hsearch, hdir⟩
    exact ⟨hcheck, hn, hsearch, _, namesOf_join hn p, by rwa [startOf_join hn]⟩

/-! ## Where directories and links stay -/

/-- The directories and links of `d` are all in `d'`, for the same process. -/
structure Keeps (d d' : Disk) : Prop where
  privileged : d'.privileged = d.privileged
  workingDirectory : d'.workingDirectory = d.workingDirectory
  entry : ∀ loc e, d.get? loc = some e → e.isFile = false → d'.get? loc = some e

namespace Keeps

theorem refl (d : Disk) : d.Keeps d := ⟨rfl, rfl, fun _ _ h _ => h⟩

theorem trans {d d' d'' : Disk} (h : d.Keeps d') (h' : d'.Keeps d'') : d.Keeps d'' :=
  ⟨h'.privileged.trans h.privileged, h'.workingDirectory.trans h.workingDirectory,
    fun loc e he hf => h'.entry loc e (h.entry loc e he hf) hf⟩

variable {d d' : Disk} (h : d.Keeps d')
include h

theorem maySearch (mode : Nat) : d'.maySearch mode = d.maySearch mode := by
  simp [Disk.maySearch, h.privileged]

theorem mayWrite (mode : Nat) : d'.mayWrite mode = d.mayWrite mode := by
  simp [Disk.mayWrite, h.privileged]

theorem mayRead (mode : Nat) : d'.mayRead mode = d.mayRead mode := by
  simp [Disk.mayRead, h.privileged]

theorem holdsDir {loc : Location} (hloc : d.holdsDir loc = true) : d'.holdsDir loc = true := by
  rcases holdsDir_iff.1 hloc with ⟨mode, hmode⟩
  exact holdsDir_iff.2 ⟨mode, h.entry loc _ hmode rfl⟩

theorem searchable {dir : Location} (hs : d.Searchable dir) : d'.Searchable dir := by
  rcases hs with ⟨mode, hmode, hsearch⟩
  exact ⟨mode, h.entry dir _ hmode rfl, by rwa [h.maySearch]⟩

theorem letsThrough {dir : Location} {name : String} (hs : d.LetsThrough dir name) :
    d'.LetsThrough dir name :=
  ⟨h.holdsDir hs.1, fun hne => h.searchable (hs.2 hne)⟩

theorem mayChange {dir : Location} (hs : d.Searchable dir) :
    d'.mayChange dir = d.mayChange dir := by
  rcases hs with ⟨mode, hmode, -⟩
  simp [Disk.mayChange, hmode, h.entry dir _ hmode rfl, h.mayWrite, h.maySearch]

/-- Going through names passes the same directories and links, up to an entry that is kept. -/
theorem stepThrough {follow : Bool} {loc : Location} {e : Entry} (hloc : d.get? loc = some e)
    (he : d'.get? loc = some e) {jump jump' : Location → String → List String → Except DiskError Place}
    (hjump : ∀ here target rest, jump here target rest = .ok (.entry loc) →
      jump' here target rest = .ok (.entry loc)) :
    ∀ (ns : List String) (here : Location),
      d.stepThrough follow jump here ns = .ok (.entry loc) →
      d'.stepThrough follow jump' here ns = .ok (.entry loc)
  | [], _, hstep => hstep
  | name :: rest, here, hstep => by
    have ih : ∀ here, d.stepThrough follow jump here rest = .ok (.entry loc) →
        d'.stepThrough follow jump' here rest = .ok (.entry loc) := stepThrough hloc he hjump rest
    obtain ⟨hlets, hpasses⟩ := stepThrough_cons_eq_ok_iff.1 hstep
    refine stepThrough_cons_eq_ok_iff.2 ⟨h.letsThrough hlets, ?_⟩
    cases hpasses with
    | slash hrest => exact .slash (ih here hrest)
    | dot hrest => exact .dot (ih here hrest)
    | dots hrest => exact .dots (ih here.tail hrest)
    | vacant _ _ _ hplace => cases hplace
    | last hname hget hrest hfollow hplace =>
      exact .last hname (h.entry _ _ hget rfl) hrest hfollow hplace
    | link hname hget hfollow hj => exact .link hname (h.entry _ _ hget rfl) hfollow (hjump _ _ _ hj)
    | @entry _ found hname hget hlink hrest =>
      cases hfile : found.isFile with
      | false => exact .entry hname (h.entry _ _ hget hfile) hlink (ih _ hrest)
      | true =>
        -- a regular file has nothing below it, so it is the entry that is kept
        cases rest with
        | nil =>
          obtain rfl := Place.entry.inj (Except.ok.inj hrest)
          obtain rfl : found = e := Option.some.inj (hget.symm.trans hloc)
          exact .entry hname he hlink rfl
        | cons next rest =>
          obtain ⟨⟨hdir, -⟩, -⟩ := stepThrough_cons_eq_ok_iff.1 hrest
          obtain ⟨mode, hmode⟩ := holdsDir_iff.1 hdir
          obtain rfl : found = .dir mode := Option.some.inj (hget.symm.trans hmode)
          cases hfile

/-- A path that leads to an entry which is kept leads to it still. -/
theorem resolveFrom {follow : Bool} {loc : Location} {e : Entry} (hloc : d.get? loc = some e)
    (he : d'.get? loc = some e) :
    ∀ (links : Nat) (here : Location) (ns : List String),
      d.resolveFrom follow links here ns = .ok (.entry loc) →
      d'.resolveFrom follow links here ns = .ok (.entry loc)
  | 0, here, ns => h.stepThrough hloc he (fun _ _ _ hj => hj) ns here
  | links + 1, here, ns =>
    h.stepThrough hloc he (fun _ _ _ => resolveFrom hloc he links _ _) ns here

theorem reaches {p : Path} {dir : Location} {n : String} (hr : d.Reaches p dir n) :
    d'.Reaches p dir n := by
  rcases hr with ⟨hcheck, hn, hsearch, init, hinit, hdir⟩
  rcases id hsearch with ⟨mode, hmode, -⟩
  refine ⟨hcheck, hn, h.searchable hsearch, init, hinit, ?_⟩
  rw [h.workingDirectory]
  exact h.resolveFrom hmode (h.entry dir _ hmode rfl) _ _ _ hdir

theorem leadsTo {p : Path} {loc : Location} (hp : d.LeadsTo p loc) : d'.LeadsTo p loc := by
  rcases hp with ⟨dir, n, hloc, hlen, hreach⟩
  exact ⟨dir, n, hloc, hlen, h.reaches hreach⟩

end Keeps

/-! ## Not following a last link -/

/-- What is found by not following a last link: the same, or the link. -/
def OrLink (d : Disk) (place : Place) (found : Except DiskError Place) : Prop :=
  found = .ok place ∨ ∃ loc target, found = .ok (.entry loc) ∧ d.get? loc = some (.link target)

theorem stepThrough_orLink {d : Disk} {place : Place}
    {jump jump' : Location → String → List String → Except DiskError Place}
    (hjump : ∀ here target rest, jump here target rest = .ok place →
      d.OrLink place (jump' here target rest)) :
    ∀ (ns : List String) (here : Location), d.stepThrough true jump here ns = .ok place →
      d.OrLink place (d.stepThrough false jump' here ns)
  | [], here, h => Or.inl h
  | name :: rest, here, h => by
    have ih := stepThrough_orLink hjump rest
    obtain ⟨⟨hdir, hsearch⟩, hpasses⟩ := stepThrough_cons_eq_ok_iff.1 h
    cases hpasses with
    | slash hrest =>
      rw [stepThrough_slash hdir]
      exact ih here hrest
    | dot hrest =>
      rw [stepThrough_dot (hsearch (by simp))]
      exact ih here hrest
    | dots hrest =>
      rw [stepThrough_dots (hsearch (by simp))]
      exact ih here.tail hrest
    | vacant hname hget hrest hplace =>
      rw [stepThrough_vacant (hsearch hname.ne_empty) hname hget, hrest, hplace]
      exact Or.inl rfl
    | last _ _ _ hfollow => cases hfollow
    | @link _ target hname hget _ hj =>
      -- here the two ways part: only one of them follows a last link
      rw [stepThrough_link (hsearch hname.ne_empty) hname hget]
      split
      · exact Or.inr ⟨name :: here, target, rfl, hget⟩
      · exact hjump here target rest hj
    | entry hname hget hlink hrest =>
      rw [stepThrough_entry (hsearch hname.ne_empty) hname hget hlink]
      exact ih _ hrest

theorem resolveFrom_orLink {d : Disk} {place : Place} :
    ∀ (links : Nat) (here : Location) (ns : List String),
      d.resolveFrom true links here ns = .ok place →
      d.OrLink place (d.resolveFrom false links here ns)
  | 0, here, ns => stepThrough_orLink (fun _ _ _ h => absurd h (by simp)) ns here
  | links + 1, here, ns => stepThrough_orLink (fun _ _ _ h => resolveFrom_orLink links _ _ h) ns here

/-- What a path leads to is at the path itself, or there is a link. -/
theorem lstat_of_locate {d : Disk} {p : Path} {loc : Location} {e : Entry}
    (h : d.locate true p = .ok (loc, e)) :
    ∃ found, d.lstat p = .ok found ∧ (found = e ∨ found.isLink = true) := by
  rcases locate_eq_ok_iff.1 h with ⟨hres, hget⟩
  rcases resolve_eq_ok_iff.1 hres with ⟨hcheck, hfrom, hdir⟩
  have hlstat : ∀ {loc' : Location} {found : Entry},
      d.resolveFrom (false || endsInSlash p) linkLimit (startOf p.text d.workingDirectory)
        (namesOf p.text) = .ok (.entry loc') → d.get? loc' = some found →
      (endsInSlash p = true → d.holdsDir loc' = true) → d.lstat p = .ok found := by
    intro loc' found hloc hfound hdir
    have hres' : d.resolve false p = .ok (.entry loc') := by
      refine resolve_eq_ok_iff.2 ⟨hcheck, hloc, ?_⟩
      intro loc'' heq hs
      obtain rfl := Place.entry.inj heq
      exact hdir hs
    exact lstat_eq_ok_iff.2 ⟨loc', locate_eq_ok_iff.2 ⟨hres', hfound⟩⟩
  cases hend : endsInSlash p with
  | true =>
    refine ⟨e, hlstat ?_ hget fun hs => hdir loc rfl hs, Or.inl rfl⟩
    simpa [hend] using hfrom
  | false =>
    rw [Bool.true_or] at hfrom
    rcases resolveFrom_orLink _ _ _ hfrom with hsame | ⟨loc', target, hloc, hlink⟩
    · refine ⟨e, hlstat ?_ hget (by simp [hend]), Or.inl rfl⟩
      rwa [hend, Bool.or_false]
    · refine ⟨.link target, hlstat ?_ hlink (by simp [hend]), Or.inr rfl⟩
      rwa [hend, Bool.or_false]

/-- A path that leads to anything is occupied. -/
theorem isOccupied_of_locate {d : Disk} {p : Path} {x : Location × Entry}
    (h : d.locate true p = .ok x) : d.isOccupied p = true := by
  rcases lstat_of_locate h with ⟨found, hfound, -⟩
  simp [isOccupied, hfound]

/-- A path that reaches a free name is not occupied. -/
theorem Reaches.not_isOccupied {d : Disk} {p : Path} {dir : Location} {n : String}
    (h : d.Reaches p dir n) (hlen : n.utf8ByteSize ≤ nameLimit)
    (hvacant : d.get? (n :: dir) = none) : d.isOccupied p = false := by
  rw [Bool.eq_false_iff, ne_eq, isOccupied_iff_locate]
  rintro ⟨x, hx⟩
  have hres := (locate_eq_ok_iff.1 hx).1
  rw [h.resolve_vacant hlen hvacant] at hres
  simp at hres

end SiteFolders.Disk
