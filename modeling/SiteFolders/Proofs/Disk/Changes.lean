import SiteFolders.Proofs.Disk.Resolve

/-!
# What changes do

For each operation that changes files: when it goes through and what the disk is then. The main
result is `rename_eq_ok_of_free`: a rename to a free path stays on one volume, it moves the entry and
everything below it, and nothing else happens.
-/

namespace SiteFolders.Disk

/-! ## Storing and removing -/

theorem openPlace_eq_ok_iff {d : Disk} {p : Path} {place : Place} :
    d.openPlace p = .ok place ↔ d.resolve true p = .ok place := by
  unfold openPlace
  cases d.resolve true p <;> simp [Except.mapError]

/-- A text is stored where a file is, or under a name that is free. -/
theorem store_eq_ok {d stored : Disk} {p : Path} {mode : Nat} {setMode : Bool} {bytes : ByteArray}
    (h : d.store p mode setMode bytes = .ok stored) :
    endsInSlash p = false ∧ ((∃ loc old was, d.resolve true p = .ok (.entry loc) ∧
        d.get? loc = some (.file old was) ∧
        stored = d.put loc (.file (if setMode then mode else old) bytes)) ∨
      (∃ dir n, d.resolve true p = .ok (.vacant dir n) ∧ d.mayChange dir = true ∧
        stored = d.put (n :: dir) (.file mode bytes))) := by
  obtain ⟨place, hopen, h⟩ := bind_eq_ok_iff.1 h
  have hplace := openPlace_eq_ok_iff.1 hopen
  obtain ⟨hslash, h⟩ := ite_error_eq_ok_iff.1 h
  refine ⟨by simpa using hslash, ?_⟩
  cases place with
  | entry loc =>
    left
    simp only at h
    split at h
    · next old was hfile =>
      obtain ⟨-, h⟩ := ite_else_error_eq_ok_iff.1 h
      exact ⟨loc, old, was, hplace, hfile, (Except.ok.inj h).symm⟩
    · simp at h
  | vacant dir n =>
    right
    obtain ⟨hchange, h⟩ := ite_else_error_eq_ok_iff.1 h
    exact ⟨dir, n, hplace, hchange, (Except.ok.inj h).symm⟩

/-- A file or link is removed from the directory that its path reaches. -/
theorem removeFile_eq_ok_iff {d removed : Disk} {p : Path} :
    d.removeFile p = .ok removed ↔ ∃ dir n e, d.Reaches p dir n ∧ n.utf8ByteSize ≤ nameLimit ∧
      d.get? (n :: dir) = some e ∧ endsInSlash p = false ∧ d.mayChange dir = true ∧
      e.isDir = false ∧ d.isMount (n :: dir) = false ∧ removed = d.erase (n :: dir) := by
  constructor
  · intro h
    obtain ⟨⟨dir, name?⟩, hslot, h⟩ := bind_eq_ok_iff.1 h
    cases name? with
    | none => simp at h
    | some n =>
      obtain ⟨found, hentry, h⟩ := bind_eq_ok_iff.1 h
      obtain ⟨hlen, rfl⟩ := entryIn_eq_ok_iff.1 hentry
      cases hget : d.get? (n :: dir) with
      | none => simp [hget] at h
      | some e =>
        -- none of the four reasons to refuse is there
        simp only [hget, throw_eq_error, ite_error_eq_ok_iff] at h
        obtain ⟨hslash, hchange, hdir, hmount, h⟩ := h
        exact ⟨dir, n, e, reaches_of_slot hslot, hlen, hget, by simpa using hslash,
          by simpa using hchange, by simpa using hdir, by simpa using hmount,
          (Except.ok.inj h).symm⟩
  · rintro ⟨dir, n, e, hreach, hlen, hget, hslash, hchange, hdir, hmount, rfl⟩
    simp [removeFile, hreach.slot, entryIn_of_le hlen, hget, hslash, hchange, hdir, hmount]

/-! ## Free paths -/

/-- A free path that ends in a name reaches a vacant one; the exception is a slash after a name that
is no directory. -/
theorem Reaches.free_cases {d : Disk} {p : Path} {dir : Location} {n : String}
    (h : d.Reaches p dir n) (hlen : n.utf8ByteSize ≤ nameLimit) (hfree : d.isOccupied p = false) :
    d.get? (n :: dir) = none ∨
      endsInSlash p = true ∧ (d.get? (n :: dir)).any Entry.isDir = false := by
  cases hslash : endsInSlash p with
  | false =>
    have hocc := mt (isOccupied_iff hslash h).2 (by simp [hfree])
    exact Or.inl (by simpa [hlen] using hocc)
  | true =>
    refine Or.inr ⟨rfl, ?_⟩
    rw [Bool.eq_false_iff]
    intro hdir
    obtain ⟨mode, hmode⟩ := holdsDir_iff.1 hdir
    have hloc := locate_eq_ok_iff.2 ⟨h.resolve_dir hlen hmode true, hmode⟩
    simp [isOccupied_of_locate hloc] at hfree

/-- A dot or two dots at the end lead to an entry. -/
theorem resolveFrom_ne_vacant {d : Disk} {follow : Bool} {links : Nat} {here dir : Location}
    {k n : String} (hk : k = "." ∨ k = "..") :
    d.resolveFrom follow links here [k] ≠ .ok (.vacant dir n) := by
  have hstep : ∀ jump, d.stepThrough follow jump here [k] ≠ .ok (.vacant dir n) := by
    intro jump h
    obtain ⟨-, hsearch⟩ := (stepThrough_cons_eq_ok_iff.1 h).1
    rcases hk with rfl | rfl
    · rw [stepThrough_dot (hsearch (by simp))] at h
      cases h
    · rw [stepThrough_dots (hsearch (by simp))] at h
      cases h
  cases links with
  | zero => exact hstep _
  | succ links => exact hstep _

/-- A place that is vacant, seen without following links, is what the path reaches. -/
theorem reaches_of_vacant {d : Disk} {p : Path} {dir : Location} {n : String}
    (hslash : endsInSlash p = false) (h : d.resolve false p = .ok (.vacant dir n)) :
    d.Reaches p dir n ∧ n.utf8ByteSize ≤ nameLimit ∧ d.get? (n :: dir) = none := by
  obtain ⟨-, hfrom, -⟩ := resolve_eq_ok_iff.1 h
  cases hlast : (namesOf p.text).getLast? with
  | none =>
    rw [List.getLast?_eq_none_iff.1 hlast] at hfrom
    simp [resolveFrom, linkLimit, stepThrough] at hfrom
  | some k =>
    obtain ⟨init, hinit⟩ := List.getLast?_eq_some_iff.1 hlast
    -- a path that ends in dots leads to an entry, so nothing is vacant there
    by_cases hdots : k = "." ∨ k = ".."
    · have happend := resolveFrom_append d (false || endsInSlash p) (List.cons_ne_nil k []) linkLimit
        (startOf p.text d.workingDirectory) init
      rw [← hinit, hfrom] at happend
      unfold Continues at happend
      split at happend
      · obtain ⟨links, hlinks⟩ := happend
        exact absurd hlinks.symm (resolveFrom_ne_vacant hdots)
      · simp at happend
      · simp at happend
    · rw [not_or] at hdots
      have hmem : k ∈ namesOf p.text := by simp [hinit]
      have hk := isName_of_mem_namesOf hmem hdots.1 hdots.2
      -- otherwise the last name is looked up in the directory that is reached
      obtain ⟨dir', hreach, hlen⟩ := reaches_of_resolve hlast hk h
      rw [hreach.resolve hslash hlen false (by simp)] at h
      cases hget : d.get? (k :: dir') with
      | some e => simp [hget] at h
      | none =>
        simp only [hget, Option.isSome_none, Bool.false_eq_true, if_false, Except.ok.injEq,
          Place.vacant.injEq] at h
        obtain ⟨rfl, rfl⟩ := h
        exact ⟨hreach, hlen, hget⟩

/-- What can be stored at a free path is stored under the name that the path reaches. -/
theorem store_eq_ok_of_free {d stored : Disk} {target : Path} {mode : Nat} {setMode : Bool}
    {bytes : ByteArray} (hfree : d.isOccupied target = false)
    (h : d.store target mode setMode bytes = .ok stored) :
    endsInSlash target = false ∧ ∃ dir k, d.Reaches target dir k ∧ k.utf8ByteSize ≤ nameLimit ∧
      d.get? (k :: dir) = none ∧ d.mayChange dir = true ∧
      stored = d.put (k :: dir) (.file mode bytes) := by
  obtain ⟨hslash, ⟨loc, old, was, hres, hget, -⟩ | ⟨dir, n, hres, hchange, hstored⟩⟩ := store_eq_ok h
  · simp [isOccupied_of_locate (locate_eq_ok_iff.2 ⟨hres, hget⟩)] at hfree
  · refine ⟨hslash, ?_⟩
    obtain ⟨hcheck, hfrom, -⟩ := resolve_eq_ok_iff.1 hres
    rw [Bool.true_or] at hfrom
    -- a link at the end of the path would be something that is there
    have hres' : d.resolve false target = .ok (.vacant dir n) := by
      rcases resolveFrom_orLink _ _ _ hfrom with hsame | ⟨loc, link, hloc, hlink⟩
      · exact resolve_eq_ok_iff.2 ⟨hcheck, by rwa [hslash, Bool.or_false], by simp⟩
      · have hres : d.resolve false target = .ok (.entry loc) :=
          resolve_eq_ok_iff.2 ⟨hcheck, by rwa [hslash, Bool.or_false], by simp [hslash]⟩
        have hocc := isOccupied_iff_locate.2 ⟨_, locate_eq_ok_iff.2 ⟨hres, hlink⟩⟩
        simp [hocc] at hfree
    obtain ⟨hreach, hlen, hvacant⟩ := reaches_of_vacant hslash hres'
    exact ⟨dir, n, hreach, hlen, hvacant, hchange, hstored⟩

/-! ## Renaming -/

/-- What a rename does once both paths reach their names. -/
theorem rename_of_reaches {d : Disk} {source target : Path} {fromDir toDir : Location}
    {m n : String} {e : Entry} (hsource : d.Reaches source fromDir m)
    (hm : m.utf8ByteSize ≤ nameLimit) (he : d.get? (m :: fromDir) = some e)
    (htarget : d.Reaches target toDir n) (hn : n.utf8ByteSize ≤ nameLimit) :
    d.rename source target =
      if d.volume fromDir ≠ d.volume toDir then .error .crossesDevices
      else if e.isDir = false ∧ (endsInSlash source = true ∨ endsInSlash target = true) then
        .error .notDirectory
      else if e.isDir = true ∧ (m :: fromDir) <:+ toDir then .error .invalid
      else if (n :: toDir) <:+ fromDir then .error .notEmpty
      else if m :: fromDir = n :: toDir then .ok d
      else if d.mayChange fromDir = false then .error .denied
      else if d.mayChange toDir = false then .error .denied
      else match checkKind e (d.get? (n :: toDir)) with
        | .error cause => .error cause
        | .ok _ =>
          if e.isDir = true ∧ fromDir ≠ toDir ∧ d.mayWrite e.mode = false then .error .denied
          else if d.isMount (m :: fromDir) = true ∨ d.isMount (n :: toDir) = true then .error .busy
          else if (d.get? (n :: toDir)).isSome = true ∧ e.isDir = true ∧
              (d.children (n :: toDir)).isEmpty = false then .error .notEmpty
          else .ok (d.moveTree (m :: fromDir) (n :: toDir)) := by
  simp only [rename, hsource.slot, htarget.slot, ok_bind, entryIn_of_le hm, entryIn_of_le hn, he,
    throw_eq_error, pure_eq_ok, Bool.and_eq_true, Bool.or_eq_true, Bool.not_eq_true',
    List.isSuffixOf_iff_suffix, bne_iff_ne, ne_eq, and_assoc]
  cases checkKind e (d.get? (n :: toDir)) <;> rfl

/-- A rename that goes through has found both names. -/
theorem reaches_of_rename {d renamed : Disk} {source target : Path}
    (h : d.rename source target = .ok renamed) :
    ∃ fromDir m toDir n e, d.Reaches source fromDir m ∧ m.utf8ByteSize ≤ nameLimit ∧
      d.get? (m :: fromDir) = some e ∧ d.Reaches target toDir n ∧ n.utf8ByteSize ≤ nameLimit := by
  obtain ⟨⟨fromDir, m?⟩, hs, h⟩ := bind_eq_ok_iff.1 h
  obtain ⟨⟨toDir, n?⟩, ht, h⟩ := bind_eq_ok_iff.1 h
  obtain ⟨-, h⟩ := ite_error_eq_ok_iff.1 h
  cases m? with
  | none => simp at h
  | some m =>
    cases n? with
    | none => simp at h
    | some n =>
      obtain ⟨found, hm, h⟩ := bind_eq_ok_iff.1 h
      obtain ⟨hmlen, rfl⟩ := entryIn_eq_ok_iff.1 hm
      cases hget : d.get? (m :: fromDir) with
      | none => simp [hget] at h
      | some e =>
        simp only [hget] at h
        obtain ⟨existing, hn, -⟩ := bind_eq_ok_iff.1 h
        exact ⟨fromDir, m, toDir, n, e, reaches_of_slot hs, hmlen, hget, reaches_of_slot ht,
          (entryIn_eq_ok_iff.1 hn).1⟩

/-- What may be replaced at a free path is not there. -/
theorem vacant_of_checkKind {d : Disk} {target : Path} {toDir : Location} {n : String} {e : Entry}
    (htarget : d.Reaches target toDir n) (hn : n.utf8ByteSize ≤ nameLimit)
    (hfree : d.isOccupied target = false) (hleaf : e.isDir = false → endsInSlash target = false)
    {u : Unit} (h : checkKind e (d.get? (n :: toDir)) = .ok u) :
    d.get? (n :: toDir) = none := by
  rcases htarget.free_cases hn hfree with hvacant | ⟨hslash, hnodir⟩
  · exact hvacant
  · -- only a directory goes to a path that ends in a slash, and it takes no other's place
    cases hexisting : d.get? (n :: toDir) with
    | none => rfl
    | some existing =>
      have hdir : e.isDir = true := by
        by_contra hnot
        simp [hleaf (by simpa using hnot)] at hslash
      have hother : existing.isDir = false := by simpa [hexisting] using hnodir
      simp [checkKind, hexisting, hdir, hother] at h

/-- An entry can be moved to a vacant place in a directory that does not lie below it. -/
theorem canMove_of_vacant {d : Disk} (hd : d.IsTree) {m n : String} {fromDir toDir : Location}
    {e : Entry} (he : d.get? (m :: fromDir) = some e) (hname : IsName n)
    (hn : n.utf8ByteSize ≤ nameLimit) (hholds : d.holdsDir toDir = true)
    (hvacant : d.get? (n :: toDir) = none) (hbelow : ¬ (e.isDir = true ∧ (m :: fromDir) <:+ toDir)) :
    d.CanMove (m :: fromDir) (n :: toDir) := by
  refine ⟨by simp, by simp [he], hvacant, ⟨hname, hn, hholds⟩, fun hsuffix => ?_⟩
  rcases List.suffix_cons_iff.1 hsuffix with heq | hsuffix
  · rw [heq, hvacant] at he
    simp at he
  · -- what stands above a directory is a directory
    have hdir : e.isDir = true := by
      obtain ⟨mode, hmode⟩ := holdsDir_iff.1 hholds
      by_cases heq : (m :: fromDir) = toDir
      · rw [heq, hmode, Option.some.injEq] at he
        rw [← he]
        rfl
      · have habove := hd.holdsDir_of_suffix (by simp [hmode]) hsuffix heq
        simpa [holdsDir, he] using habove
    exact hbelow ⟨hdir, hsuffix⟩

/-- A rename to a free path goes from the entry that the source reaches to the vacant name that the
target reaches, both on one volume and fit for a move. Only a directory is named with a slash after
it. -/
theorem rename_eq_ok_of_free {d : Disk} {source target : Path} (hd : d.IsTree) {renamed : Disk}
    (hfree : d.isOccupied target = false) (h : d.rename source target = .ok renamed) :
    ∃ old new e, d.LeadsTo source old ∧ d.LeadsTo target new ∧ d.CanMove old new ∧
      d.get? old = some e ∧ (e.isDir = false → endsInSlash source = false ∧
        endsInSlash target = false) ∧ d.volume old.tail = d.volume new.tail ∧
      renamed = d.moveTree old new := by
  obtain ⟨fromDir, m, toDir, n, e, hsource, hmlen, he, htarget, hnlen⟩ := reaches_of_rename h
  rw [rename_of_reaches hsource hmlen he htarget hnlen] at h
  simp only [ite_error_eq_ok_iff] at h
  obtain ⟨hvolume, hslash, hbelow, -, h⟩ := h
  have hleaf : e.isDir = false → endsInSlash source = false ∧ endsInSlash target = false := by
    intro hnodir
    simpa [hnodir] using hslash
  split at h
  · next hsame =>
    -- the entry itself is not at a free path
    rcases htarget.free_cases hnlen hfree with hvacant | ⟨hends, hnodir⟩
    · simp [← hsame, he] at hvacant
    · rw [← hsame, he, Option.any_some] at hnodir
      simp [(hleaf hnodir).2] at hends
  simp only [ite_error_eq_ok_iff] at h
  obtain ⟨-, -, h⟩ := h
  split at h
  · simp at h
  next u hkind =>
  simp only [ite_error_eq_ok_iff] at h
  obtain ⟨-, -, -, h⟩ := h
  have hvacant := vacant_of_checkKind htarget hnlen hfree (fun hnodir => (hleaf hnodir).2) hkind
  obtain ⟨mode, hmode, -⟩ := htarget.searchable
  have hcan := canMove_of_vacant hd he htarget.name hnlen (holdsDir_iff.2 ⟨mode, hmode⟩) hvacant hbelow
  exact ⟨_, _, e, ⟨_, _, rfl, hmlen, hsource⟩, ⟨_, _, rfl, hnlen, htarget⟩, hcan, he, hleaf,
    not_not.1 hvolume, (Except.ok.inj h).symm⟩

/-! ## A file at a vacant place -/

section PutFile

variable {d : Disk} {new : Location} (h : d.get? new = none)
include h

theorem keeps_put_file (mode : Nat) (bytes : ByteArray) : d.Keeps (d.put new (.file mode bytes)) :=
  ⟨rfl, rfl, fun _ _ he _ => get?_put_vacant h _ he⟩

theorem keeps_of_put_file (mode : Nat) (bytes : ByteArray) :
    (d.put new (.file mode bytes)).Keeps d := by
  refine ⟨rfl, rfl, fun loc e he hfile => ?_⟩
  by_cases heq : loc = new
  · rcases List.exists_cons_of_ne_nil (get?_eq_none_iff.1 h).1 with ⟨name, dir, rfl⟩
    rw [heq, get?_put_self, Option.some.injEq] at he
    simp [← he, Entry.isFile] at hfile
  · rwa [get?_put_of_ne _ _ heq] at he

end PutFile

end SiteFolders.Disk
