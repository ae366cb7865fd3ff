import SiteFolders.Proofs.Move.Phase
import SiteFolders.Proofs.Path.Relative
import SiteFolders.Proofs.Reference.Idempotence
import SiteFolders.Proofs.Reference.Includes

/-!
# Updating token by token

An update takes tokens as a whole. A token stays as it is, or it names a moved file and becomes the
reference to that file, and gaps stay but for those around what a script includes (`Reworded`). One
mention that is written anew does this (`reworded_renew`), and one text can be reworded after another
if no reference names another file (`Reworded.trans`), so all passes for all moved files do
(`reworded_foldl`). Files that have come to the folders of a root have such references
(`tokenwise_of_filedIn`).
-/

namespace SiteFolders.Reference

open SiteFolders.Text Regex

/-! ## Texts in other words -/

/-- The keyword of a script is token `i` and the file it includes is the token behind it. The text is
written anew from there to the end of the mention. -/
structure IncludeAt (moved : List Moved) (dir : Path) (pass : Pass) (text text' : List Char)
    (i : ℕ) : Prop extends Recast pass text text' i where
  isInclude : pass.IsInclude
  keyword : ∃ o t, Matches pass.opening o ∧ o <:+ t ∧
    ((tokens text)[i]? = some t ∨ (tokens text')[i]? = some t)
  mention : ∃ file ∈ moved, ∃ t, (tokens text)[i + 1]? = some t ∧ file.NamedBy t ∧
    (tokens text')[i + 1]? = some (file.reference dir)

/-- The second text is the first one with references for tokens that name moved files, and with other
gaps around what a script includes. -/
structure Reworded (moved : List Moved) (dir : Path) (text text' : List Char) : Prop where
  length : (tokens text').length = (tokens text).length
  token : ∀ (i : ℕ) t, (tokens text)[i]? = some t → (tokens text')[i]? = some t ∨
    ∃ file ∈ moved, file.NamedBy t ∧ (tokens text')[i]? = some (file.reference dir)
  gap : ∀ i : ℕ, (gaps text')[i]? = (gaps text)[i]? ∨
    ∃ pass k, IncludeAt moved dir pass text text' k ∧ (i = k + 1 ∨ i = k + 2)

/-- What keeps tokens whole: names and references hold no delimiters, and no reference to one of the
files names another one. -/
structure Tokenwise (moved : List Moved) (dir : Path) : Prop where
  name : ∀ m ∈ moved, PlainValue m.oldName.toList ∧ m.oldName.toList ≠ []
  reference : ∀ m ∈ moved, PlainValue (m.reference dir) ∧ m.reference dir ≠ []
  foreign : ∀ m ∈ moved, ∀ n ∈ moved, n.NamedBy (m.reference dir) → n = m

section

variable {moved : List Moved} {dir : Path} {text text' text'' : List Char} {i : ℕ}

theorem Reworded.refl (text : List Char) : Reworded moved dir text text where
  length := rfl
  token := fun _ _ h => Or.inl h
  gap := fun _ => Or.inl rfl

theorem Reworded.exists_token (h : Reworded moved dir text text') {t : List Char}
    (ht : (tokens text')[i]? = some t) : ∃ t₀, (tokens text)[i]? = some t₀ := by
  have hlt : i < (tokens text).length := by
    rw [← h.length]
    exact (List.getElem?_eq_some_iff.1 ht).1
  exact ⟨_, List.getElem?_eq_getElem hlt⟩

/-- The gaps around a file that a script includes, before or after, are as they were or are written
anew together. -/
theorem Reworded.sameAround_or (h : Reworded moved dir text text') {pass : Pass}
    (hpass : pass.IsInclude) (hencloses : Encloses pass text i ∨ Encloses pass text' i) :
    SameAround text text' i ∨ IncludeAt moved dir pass text text' i := by
  have hanew : ∀ n, n = i + 1 ∨ n = i + 2 → (gaps text')[n]? = (gaps text)[n]? ∨
      IncludeAt moved dir pass text text' i := by
    intro n hn
    rcases h.gap n with hsame | ⟨other, k, hat, hk⟩
    · exact Or.inl hsame
    · right
      have hshared : i = k ∧ pass = other := by
        rcases hencloses with hbefore | hafter
        · exact hbefore.eq_of_shared hpass hat.isInclude hat.encloses hn hk
        · exact hafter.eq_of_shared hpass hat.isInclude (hat.encloses_anew hat.isInclude) hn hk
      obtain ⟨rfl, rfl⟩ := hshared
      exact hat
  rcases hanew (i + 1) (Or.inl rfl) with hbridge | hat
  · rcases hanew (i + 2) (Or.inr rfl) with hclosing | hat
    · exact Or.inl ⟨hbridge, hclosing⟩
    · exact Or.inr hat
  · exact Or.inr hat

section

variable (hwise : Tokenwise moved dir) (h : Reworded moved dir text text')
include hwise h

/-- A reference that has been written stays. -/
theorem Reworded.keeps_reference {m : Moved} (hm : m ∈ moved)
    (ht : (tokens text)[i]? = some (m.reference dir)) :
    (tokens text')[i]? = some (m.reference dir) := by
  rcases h.token i _ ht with hsame | ⟨n, hn, hnamed, hnew⟩
  · exact hsame
  · rwa [hwise.foreign m hm n hn hnamed] at hnew

/-- A token that names a file is one that named it before. -/
theorem Reworded.named_before {n : Moved} (hn : n ∈ moved) {t : List Char}
    (ht : (tokens text')[i]? = some t) (hnamed : n.NamedBy t) :
    ∃ t₀, (tokens text)[i]? = some t₀ ∧ n.NamedBy t₀ := by
  obtain ⟨t₀, ht₀⟩ := h.exists_token ht
  refine ⟨t₀, ht₀, ?_⟩
  rcases h.token i t₀ ht₀ with hsame | ⟨m, hm, hnamed₀, hnew⟩
  · rw [ht, Option.some.injEq] at hsame
    rwa [← hsame]
  · rw [ht, Option.some.injEq] at hnew
    rw [hnew] at hnamed
    rwa [hwise.foreign m hm n hn hnamed]

variable (h' : Reworded moved dir text' text'')
include h'

/-- A token of the text in the middle comes from the first text or goes into the last one. -/
theorem Reworded.token_between {t : List Char} (ht : (tokens text')[i]? = some t) :
    (tokens text)[i]? = some t ∨ (tokens text'')[i]? = some t := by
  obtain ⟨t₀, ht₀⟩ := h.exists_token ht
  rcases h.token i t₀ ht₀ with hsame | ⟨m, hm, -, hnew⟩
  · left
    rw [ht₀, ← hsame, ht]
  · right
    rw [ht, Option.some.injEq] at hnew
    rw [hnew] at ht ⊢
    exact h'.keeps_reference hwise hm ht

/-- What is written anew in one of two steps is so in both together. -/
theorem IncludeAt.trans {pass : Pass} (hat : IncludeAt moved dir pass text text' i ∨
    IncludeAt moved dir pass text' text'' i) : IncludeAt moved dir pass text text'' i := by
  rcases hat with hat | hat
  · have hpass := hat.isInclude
    obtain ⟨o, t, ho, hend, ht⟩ := hat.keyword
    obtain ⟨file, hfile, t₁, ht₁, hnamed, hnew⟩ := hat.mention
    refine ⟨?_, hpass, ⟨o, t, ho, hend, ?_⟩, ⟨file, hfile, t₁, ht₁, hnamed, ?_⟩⟩
    · -- the second step leaves the gaps, or it finds the same place again
      rcases h'.sameAround_or hpass (Or.inl (hat.encloses_anew hpass)) with hsame | hagain
      · exact hat.trans_same hsame
      · exact hat.toRecast.trans hpass hagain.toRecast
    · rcases ht with ht | ht
      · exact Or.inl ht
      · exact h.token_between hwise h' ht
    · exact h'.keeps_reference hwise hfile hnew
  · have hpass := hat.isInclude
    obtain ⟨o, t, ho, hend, ht⟩ := hat.keyword
    obtain ⟨file, hfile, t₁, ht₁, hnamed, hnew⟩ := hat.mention
    obtain ⟨t₀, ht₀, hnamed₀⟩ := h.named_before hwise hfile ht₁ hnamed
    refine ⟨?_, hpass, ⟨o, t, ho, hend, ?_⟩, ⟨file, hfile, t₀, ht₀, hnamed₀, hnew⟩⟩
    · -- the first step left the gaps, or it has found the same place before
      rcases h.sameAround_or hpass (Or.inr hat.encloses) with hsame | hbefore
      · exact hsame.trans_recast hat.toRecast
      · exact hbefore.toRecast.trans hpass hat.toRecast
    · rcases ht with ht | ht
      · exact h.token_between hwise h' ht
      · exact Or.inr ht

/-- One text can be reworded after another. -/
theorem Reworded.trans : Reworded moved dir text text'' where
  length := h'.length.trans h.length
  token := by
    intro i t ht
    rcases h.token i t ht with hsame | ⟨m, hm, hnamed, hnew⟩
    · exact h'.token i t hsame
    · exact Or.inr ⟨m, hm, hnamed, h'.keeps_reference hwise hm hnew⟩
  gap := by
    intro i
    rcases h.gap i with hsame | ⟨pass, k, hat, hk⟩
    · rcases h'.gap i with hsame' | ⟨pass, k, hat, hk⟩
      · exact Or.inl (hsame'.trans hsame)
      · exact Or.inr ⟨pass, k, IncludeAt.trans hwise h h' (Or.inr hat), hk⟩
    · exact Or.inr ⟨pass, k, IncludeAt.trans hwise h h' (Or.inl hat), hk⟩

/-- A token that one step changes is not changed by a later one. -/
theorem Reworded.changed_once {last : List Char} (h'' : Reworded moved dir text'' last)
    (i : ℕ) : (tokens text)[i]? = (tokens text')[i]? ∨
      (tokens text'')[i]? = (tokens last)[i]? := by
  rcases hfirst : (tokens text)[i]? with _ | t
  · left
    rw [eq_comm, List.getElem?_eq_none_iff, h.length]
    exact List.getElem?_eq_none_iff.1 hfirst
  · rcases h.token i t hfirst with hsame | ⟨m, hm, -, hnew⟩
    · exact Or.inl hsame.symm
    · right
      have hstays := h'.keeps_reference hwise hm hnew
      rw [hstays, h''.keeps_reference hwise hm hstays]

end

/-! ## One mention -/

theorem eq_length_or_getElem?_eq {α : Type} (front rest : List α) (x y : α) (i : ℕ) :
    i = front.length ∨ (front ++ y :: rest)[i]? = (front ++ x :: rest)[i]? := by grind

/-- The second text has the reference in place of one token, which names the file. -/
theorem Reworded.of_word {file : Moved} (hfile : file ∈ moved) {word : List Char}
    (hnamed : file.NamedBy word) {ts rest : List (List Char)}
    (htokens : tokens text = ts ++ word :: rest)
    (htokens' : tokens text' = ts ++ file.reference dir :: rest)
    (hgap : ∀ i, (gaps text')[i]? = (gaps text)[i]? ∨
      ∃ pass k, IncludeAt moved dir pass text text' k ∧ (i = k + 1 ∨ i = k + 2)) :
    Reworded moved dir text text' where
  length := by
    rw [htokens, htokens']
    simp
  token := by
    intro i t ht
    rw [htokens] at ht
    rw [htokens']
    rcases eq_length_or_getElem?_eq ts rest word (file.reference dir) i with rfl | hsame
    · obtain rfl : word = t := by simpa using ht
      exact Or.inr ⟨file, hfile, hnamed, by simp⟩
    · exact Or.inl (hsame.trans ht)
  gap := hgap

section

variable {pass : Pass} (hpass : pass ∈ Pass.all) {file : Moved} (hfile : file ∈ moved)
  (hwise : Tokenwise moved dir)
include hpass hfile hwise

/-- A mention that is written anew rewords the text. -/
theorem reworded_renew {p : Parts} (h : IsMention pass file.oldName.toList p) (a : List Char) :
    Reworded moved dir (a ++ p.text) (a ++ (p.renew pass.style (file.reference dir)).text) := by
  have hnamed : file.NamedBy p.word := ⟨p.lead, p.name, rfl, h.lead, h.spelled⟩
  obtain ⟨hplain, hne⟩ := hwise.name file hfile
  obtain ⟨hplain', hne'⟩ := hwise.reference file hfile
  rcases style_cases hpass with ⟨hstyle, -⟩ | hinclude
  · -- all that changes is the word
    have hnew := h.renew hpass (file.reference dir)
    obtain ⟨htokens, hgaps⟩ := h.cut hpass hplain hne a
    obtain ⟨htokens', hgaps'⟩ := hnew.cut hpass hplain' hne' a
    have hfront : (p.renew pass.style (file.reference dir)).front = p.front := by
      simp [Parts.front, Parts.renew, hstyle, Style.bridge]
    have hfollow : (p.renew pass.style (file.reference dir)).follow = p.follow := by
      simp [Parts.follow, Parts.renew, hstyle, Style.closing]
    have hword : (p.renew pass.style (file.reference dir)).word = file.reference dir := by
      simp [Parts.word, Parts.renew]
    rw [hfront, hfollow, hword] at htokens'
    rw [hfront, hfollow] at hgaps'
    refine .of_word hfile hnamed htokens htokens' fun i => Or.inl ?_
    rw [hgaps, hgaps']
  · obtain ⟨ts, t, rest, hend, htokens, htokens', hrecast, hgap⟩ :=
      h.recast hinclude hplain hne hplain' hne' a
    have hat : IncludeAt moved dir pass (a ++ p.text)
        (a ++ (p.renew pass.style (file.reference dir)).text) ts.length := by
      refine ⟨hrecast, hinclude, ⟨p.opening, t, h.opening, hend, Or.inl ?_⟩,
        ⟨file, hfile, p.word, ?_, hnamed, ?_⟩⟩
      · simp [htokens]
      · simp [htokens]
      · simp [htokens']
    rw [List.append_cons] at htokens htokens'
    refine .of_word hfile hnamed htokens htokens' fun i => ?_
    exact (hgap i).imp_right fun hi => ⟨pass, ts.length, hat, hi⟩

/-! ## All mentions, passes and files -/

theorem reworded_write (text : List Char) :
    Reworded moved dir text (pass.write file.oldName.toList (file.reference dir) text) := by
  have hall := @write_induction pass file.oldName.toList (file.reference dir) hpass
    (fun a z => Reworded moved dir text (a ++ z)) ?_ ?_ text [] (.refl text)
  · simpa using hall
  · intro a c rest _ h
    simpa using h
  · intro a p hmention h
    have hnew := h.trans hwise (reworded_renew hpass hfile hwise hmention a)
    rwa [Parts.text_eq_mentionText, ← List.append_assoc] at hnew

end

section

variable (hwise : Tokenwise moved dir)
include hwise

theorem reworded_writeAll {file : Moved} (hfile : file ∈ moved) :
    ∀ {ps : List Pass}, (∀ pass ∈ ps, pass ∈ Pass.all) → ∀ text : List Char,
      Reworded moved dir text (writeAll ps file.oldName.toList (file.reference dir) text)
  | [], _, text => .refl text
  | pass :: ps, hps, text => by
    have hfirst := reworded_write (hps pass (by simp)) hfile hwise text
    have hrest := reworded_writeAll hfile (fun p hp => hps p (List.mem_cons_of_mem _ hp))
      (pass.write file.oldName.toList (file.reference dir) text)
    exact hfirst.trans hwise hrest

theorem reworded_follow {file : Moved} (hfile : file ∈ moved) (loose : Bool) (draft : Draft) :
    Reworded moved dir draft.text (draft.follow loose dir file).text := by
  rw [Draft.follow, text_foldl_apply]
  exact reworded_writeAll hwise hfile (passes_subset loose) draft.text

theorem reworded_foldl (loose : Bool) : ∀ {files : List Moved}, (∀ m ∈ files, m ∈ moved) →
    ∀ draft : Draft, Reworded moved dir draft.text (files.foldl (Draft.follow loose dir) draft).text
  | [], _, draft => .refl draft.text
  | file :: files, hfiles, draft => by
    have hfirst := reworded_follow hwise (hfiles file (by simp)) loose draft
    have hrest := reworded_foldl loose (fun m hm => hfiles m (List.mem_cons_of_mem _ hm))
      (draft.follow loose dir file)
    exact hfirst.trans hwise hrest

end

end

/-- A text as it is after some of the moved files have been taken. -/
def textAfter (loose : Bool) (dir : Path) (files : List Moved) (text : List Char) : List Char :=
  (files.foldl (Draft.follow loose dir) ⟨text, false⟩).text

/-! ## Files in the folders of a root -/

/-- A name that is a token by itself and no more than one step of a path. -/
structure IsSimple (name : String) : Prop where
  ne_empty : name ≠ ""
  plain : PlainValue name.toList
  no_slash : '/' ∉ name.toList
  no_backslash : '\\' ∉ name.toList
  no_dot : name.toList.head? ≠ some '.'

namespace IsSimple

variable {name : String} (h : IsSimple name)
include h

theorem toList_ne_nil : name.toList ≠ [] := fun hnil => h.ne_empty (String.toList_eq_nil_iff.1 hnil)

theorem startsName : StartsName name.toList :=
  ⟨h.no_dot, fun hslash => h.no_slash (List.mem_of_head? hslash)⟩

theorem isName : IsName name where
  ne_empty := h.ne_empty
  no_slash := h.no_slash
  ne_dot := by
    rintro rfl
    exact h.no_dot rfl
  ne_dots := by
    rintro rfl
    exact h.no_dot rfl

end IsSimple

instance (name : String) : Decidable (IsSimple name) :=
  decidable_of_iff (name ≠ "" ∧ PlainValue name.toList ∧ '/' ∉ name.toList ∧
      '\\' ∉ name.toList ∧ name.toList.head? ≠ some '.')
    ⟨fun ⟨h1, h2, h3, h4, h5⟩ => ⟨h1, h2, h3, h4, h5⟩,
      fun ⟨h1, h2, h3, h4, h5⟩ => ⟨h1, h2, h3, h4, h5⟩⟩

/-- What is recorded of a file that has come to a category folder of a root, maybe under a new
name. -/
structure FiledIn (root : Path) (m : Moved) : Prop where
  oldName : IsSimple m.oldName
  target : ∃ (category : Category) (name : String), IsSimple name ∧
    m.target = root.joinAll [category.folder, name]

section

variable {root : Path} {below : List String} {m : Moved} (h : FiledIn root m)
  (hbelow : ∀ n ∈ below, IsName n) (hne : m.target ≠ root.joinAll below)
include h hbelow hne

/-- A reference to such a file from below the root goes up, and then down to the folder and the file
or only to the file. From below the file itself it only goes up. -/
theorem FiledIn.exists_reference : ∃ (category : Category) (name : String) (ld n : List Char),
    IsSimple name ∧ m.target.fileName? = some name ∧ Matches lead ld ∧
      m.reference (root.joinAll below) = ld ++ n ∧ (n = [] ∧ ld ≠ [] ∨ n = name.toList ∨
        n = category.folder.toList ++ '/' :: name.toList) := by
  obtain ⟨category, name, hname, htarget⟩ := h.target
  have hto : ∀ n ∈ [category.folder, name], IsName n := by
    simp [Move.isName_folder category, hname.isName]
  have hslash : ∀ n ∈ [category.folder, name], '\\' ∉ n.toList := by
    have hfolder : '\\' ∉ category.folder.toList := by cases category <;> decide
    simp [hfolder, hname.no_backslash]
  obtain ⟨same, ns, base, hns, hbase, -, hrelative⟩ := Path.relativeTo?_joinAll hto hbelow root
  have hreference : m.reference (root.joinAll below) = (Path.stepText base.length ns).toList := by
    rw [Moved.reference, Path.reference, htarget, hrelative, Option.getD_some,
      Path.withSlashes_stepText fun n hn => hslash n (by simp [hns, hn])]
  have hfile : m.target.fileName? = some name := by
    rw [htarget]
    exact Path.fileName?_join hname.isName (root.join category.folder)
  refine ⟨category, name, ?_⟩
  -- what the ways to the directory and to the file have in common
  rcases same with _ | ⟨s, _ | ⟨t, same⟩⟩
  · obtain rfl : [category.folder, name] = ns := hns
    rw [Path.toList_stepText _ (by simp)] at hreference
    exact ⟨_, _, hname, hfile, matches_lead_ups base.length, hreference, by simp⟩
  · obtain ⟨-, rfl⟩ := List.cons.inj hns
    rw [Path.toList_stepText _ (by simp)] at hreference
    exact ⟨_, _, hname, hfile, matches_lead_ups base.length, hreference, by simp⟩
  · obtain ⟨rfl, rfl, hnil⟩ : category.folder = s ∧ name = t ∧ [] = same ++ ns := by
      simpa using hns
    obtain ⟨rfl, rfl⟩ := List.append_eq_nil_iff.1 hnil.symm
    -- the directory is below the file, and not the file itself
    obtain ⟨n, base, rfl⟩ : ∃ n rest, base = n :: rest := by
      refine List.exists_cons_of_ne_nil ?_
      rintro rfl
      exact hne (htarget.trans (by rw [hbase]; rfl))
    rw [List.length_cons, Path.toList_stepText_succ] at hreference
    have hdot : Matches segment ['.'] :=
      matches_alt_iff.2 (Or.inl (.seq (.one rfl) (matches_opt_iff.2 (Or.inr rfl))))
    have hups : Matches lead ((List.replicate base.length "../".toList).flatten ++ "..".toList) := by
      have hdots := star_snoc (star_snoc (matches_lead_ups base.length) hdot) hdot
      rwa [List.append_assoc] at hdots
    refine ⟨_, [], hname, hfile, hups, by rw [hreference, List.append_nil], ?_⟩
    exact Or.inl ⟨rfl, by simp⟩

theorem FiledIn.plain_reference : PlainValue (m.reference (root.joinAll below)) ∧
    m.reference (root.joinAll below) ≠ [] := by
  obtain ⟨category, name, ld, n, hname, -, hld, hreference, hn⟩ := h.exists_reference hbelow hne
  have hfolder := plainValue_of_isPlain (isOrdinary_folder category).plain
  have hslash : PlainValue ['/'] := by decide
  rw [hreference]
  have hplain := plainValue_lead hld
  rcases hn with ⟨rfl, hne⟩ | rfl | rfl
  · rw [List.append_nil]
    exact ⟨hplain, hne⟩
  · exact ⟨hplain.append hname.plain, by simp [hname.ne_empty]⟩
  · exact ⟨hplain.append (hfolder.append (hslash.append hname.plain)), by simp⟩

/-- A name that stands in the reference as the whole of it is the new name of the file. -/
theorem FiledIn.spelled_of_namedBy {other : Moved} (hother : IsSimple other.oldName)
    (hnamed : other.NamedBy (m.reference (root.joinAll below))) :
    ∃ name, m.target.fileName? = some name ∧ Spelled name.toList other.oldName.toList := by
  obtain ⟨category, name, ld, n, hname, hfile, hld, hreference, hn⟩ := h.exists_reference hbelow hne
  obtain ⟨ld', s, hsplit, hld', hs⟩ := hnamed
  have hstarts : StartsName s :=
    ⟨fun h => hother.no_dot ((hs.head?_eq_iff (Or.inl (by decide))).1 h),
      fun h => hother.startsName.2 ((hs.head?_eq_iff (Or.inl (by decide))).1 h)⟩
  have hstarts' : StartsName n := by
    rcases hn with ⟨rfl, -⟩ | rfl | rfl
    · decide
    · exact hname.startsName
    · cases category <;> simp [StartsName, Category.folder]
  -- neither name goes on with leading segments, so the two readings of the reference are one
  rw [hreference] at hsplit
  obtain ⟨-, rfl⟩ := eq_of_lead_append hld hld' hstarts' hstarts hsplit
  refine ⟨name, hfile, ?_⟩
  rcases hn with ⟨rfl, -⟩ | rfl | rfl
  · exact absurd (List.forall₂_nil_right_iff.1 hs) hother.toList_ne_nil
  · exact hs.symm
  · exact absurd ((hs.mem_iff (Or.inl (by decide))).1 (by simp)) hother.no_slash

end

section

variable {root : Path} {below : List String} (hbelow : ∀ n ∈ below, IsName n) {moved : List Moved}
  (hfiled : ∀ m ∈ moved, FiledIn root m)
  (hapart : ∀ m ∈ moved, ∀ n ∈ moved, m ≠ n →
    ∀ name ∈ m.target.fileName?, ¬ Spelled name.toList n.oldName.toList)
  (htargets : ∀ m ∈ moved, m.target ≠ root.joinAll below)
include hbelow hfiled hapart htargets

/-- References to files in the folders of a root keep tokens whole if no file has come to a name that
is another one's former name in any letter case. -/
theorem tokenwise_of_filedIn : Tokenwise moved (root.joinAll below) where
  name := fun m hm => ⟨(hfiled m hm).oldName.plain, (hfiled m hm).oldName.toList_ne_nil⟩
  reference := fun m hm => (hfiled m hm).plain_reference hbelow (htargets m hm)
  foreign := by
    intro m hm n hn hnamed
    obtain ⟨name, hname, hspelled⟩ :=
      (hfiled m hm).spelled_of_namedBy hbelow (htargets m hm) (hfiled n hn).oldName hnamed
    by_contra hdiff
    exact hapart m hm n hn (Ne.symm hdiff) name hname hspelled

/-- An update token by token, from a directory below the root that is none of the places that files
have come to. The text comes out with as many tokens as it had, each of them as it was or, if it was
the former name of a file after leading segments, as the reference to that file. Gaps are as they were
but for those around what a script includes. Of any two files that are taken one after the other,
at most one changes a token. -/
theorem update_tokens (loose : Bool) (text : List Char) :
    Reworded moved (root.joinAll below) text (update loose moved (root.joinAll below) text).text ∧
    ∀ earlier first between second later,
      inOrder moved = earlier ++ first :: (between ++ second :: later) → ∀ i : ℕ,
        (tokens (textAfter loose (root.joinAll below) earlier text))[i]? =
          (tokens (textAfter loose (root.joinAll below) (earlier ++ [first]) text))[i]? ∨
        (tokens (textAfter loose (root.joinAll below) (earlier ++ first :: between) text))[i]? =
          (tokens (textAfter loose (root.joinAll below)
            (earlier ++ first :: (between ++ [second])) text))[i]? := by
  have hwise := tokenwise_of_filedIn hbelow hfiled hapart htargets
  have hmem : ∀ m ∈ inOrder moved, m ∈ moved := fun m hm => List.mem_mergeSort.1 hm
  constructor
  · exact reworded_foldl hwise loose hmem ⟨text, false⟩
  · intro earlier first between second later horder i
    have hafter : ∀ {files more : List Moved}, (∀ m ∈ more, m ∈ inOrder moved) →
        Reworded moved (root.joinAll below) (textAfter loose (root.joinAll below) files text)
          (textAfter loose (root.joinAll below) (files ++ more) text) := by
      intro files more hmore
      rw [textAfter, textAfter, List.foldl_append]
      exact reworded_foldl hwise loose (fun m hm => hmem m (hmore m hm)) _
    rw [horder] at hafter
    have hfirst := @hafter earlier [first] (by simp)
    have hbetween := @hafter (earlier ++ [first]) between (by simp +contextual)
    have hsecond := @hafter (earlier ++ first :: between) [second] (by simp)
    rw [← List.append_cons] at hbetween
    rw [List.append_assoc, List.cons_append] at hsecond
    exact hfirst.changed_once hwise hbetween hsecond i

end

/-- A script and a stylesheet. -/
def pages : List Moved :=
  [⟨"menu.php", "includes/menu.php", ⟨"/site/includes/menu.php"⟩⟩,
    ⟨"a.css", "css/a.css", ⟨"/site/css/a.css"⟩⟩]

theorem inOrder_pages : inOrder pages = pages := by
  rw [inOrder, List.mergeSort_of_pairwise (by decide +kernel)]

theorem filedIn_pages : ∀ m ∈ pages, FiledIn ⟨"/site"⟩ m := by
  intro m hm
  simp only [pages, List.mem_cons, List.not_mem_nil, or_false] at hm
  rcases hm with rfl | rfl
  · exact ⟨by decide, .includes, "menu.php", by decide, by decide +kernel⟩
  · exact ⟨by decide, .css, "a.css", by decide, by decide +kernel⟩

/-- As seen from a folder of the site. -/
theorem update_tokens_of_pages : (∀ n ∈ ["js"], IsName n) ∧ (∀ m ∈ pages, FiledIn ⟨"/site"⟩ m) ∧
    (∀ m ∈ pages, ∀ n ∈ pages, m ≠ n →
      ∀ name ∈ m.target.fileName?, ¬ Spelled name.toList n.oldName.toList) ∧
    (∀ m ∈ pages, m.target ≠ Path.joinAll ⟨"/site"⟩ ["js"]) ∧
    Reworded pages (Path.joinAll ⟨"/site"⟩ ["js"])
      "include ( './Menu.php' ); <link href= 'a.css'>".toList
      "include(\"../includes/menu.php\"); <link href= '../css/a.css'>".toList := by
  have hname : ∀ n ∈ ["js"], IsName n := by decide
  have hapart : ∀ m ∈ pages, ∀ n ∈ pages, m ≠ n →
      ∀ name ∈ m.target.fileName?, ¬ Spelled name.toList n.oldName.toList := by decide +kernel
  have htargets : ∀ m ∈ pages, m.target ≠ Path.joinAll ⟨"/site"⟩ ["js"] := by decide +kernel
  refine ⟨hname, filedIn_pages, hapart, htargets, ?_⟩
  have hreworded := (update_tokens hname filedIn_pages hapart htargets true
    "include ( './Menu.php' ); <link href= 'a.css'>".toList).1
  have htext : (update true pages (Path.joinAll ⟨"/site"⟩ ["js"])
      "include ( './Menu.php' ); <link href= 'a.css'>".toList).text =
        "include(\"../includes/menu.php\"); <link href= '../css/a.css'>".toList := by
    rw [update, inOrder_pages]
    decide +kernel
  rwa [htext] at hreworded

end SiteFolders.Reference
