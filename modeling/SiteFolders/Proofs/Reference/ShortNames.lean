import SiteFolders.Proofs.Reference.Values

/-!
# Short names in longer ones

Moved files are taken by the length of their former names, the longest first, and a reference that
has been written for one of them is text that the passes for the later ones work on. What keeps a
reference whole is therefore that no later name can be read in it; taking long names first only
helps as long as names hold no blanks and no parentheses, because the loose pass takes these for
delimiters.
-/

namespace SiteFolders.Reference

open SiteFolders.Text Regex

/-- A name is read in itself as the whole of it. -/
theorem onlyWhole_self (name : List Char) (q : Char) : OnlyWhole name (q :: (name ++ [q])) := by
  refine ⟨fun before after h => ?_, fun after h => ?_⟩
  · rcases h with ⟨pass, hpass, o, b, ld, m, c, htext, ho, hb, -, hm, -⟩
    rcases front_last hpass ho hb with ⟨y, d, hfront, -⟩
    have hlen := congrArg List.length htext
    have hfrontLen := congrArg List.length hfront
    have hnameLen := (spelled_of_nameRegex hm).length_eq
    simp only [List.length_append, List.length_cons, List.length_nil] at hlen hfrontLen
    exact ⟨List.length_eq_zero_iff.1 (by omega), List.length_eq_zero_iff.1 (by omega)⟩
  · rcases h with ⟨_, ld, m, c, htext, -, hm, -⟩
    have hlen := congrArg List.length htext
    have hnameLen := hm.length_eq
    simp only [List.length_append, List.length_cons, List.length_nil] at hlen
    exact List.length_eq_zero_iff.1 (by omega)

/-- The loose pass finds a name between delimiters, wherever they come from. -/
theorem mention?_loose_ne_none {name ld after : List Char} {d c : Char} (hne : name ≠ [])
    (hname : StartsName name) (hd : Opens d) (hld : Matches lead ld) (hc : closesLoose c = true) :
    Pass.loose.mention? name (d :: (ld ++ (name ++ c :: after))) ≠ none := by
  have hall : Pass.loose ∈ Pass.all := by simp [Pass.all]
  have hreads : Reads Pass.loose name ⟨[d], [], ld, name, [], c :: after⟩ := by
    refine ⟨.one ?_, .empty, hld, ?_, .empty⟩
    · simpa [Opens, IsQuote, or_assoc] using hd
    · rw [Pass.nameRegex, matches_literal_iff]
      exact List.forall₂_same.2 fun k _ => beq_self_eq_true k
  have htext : Parts.text ⟨[d], [], ld, name, [], c :: after⟩ =
      d :: (ld ++ (name ++ c :: after)) := rfl
  rcases exists_firstHit? hall hreads with ⟨hit, hfirst⟩
  rw [htext] at hfirst
  -- the preferred reading is the only one, for the name starts where the segments end
  rcases exists_parts_of_mem_hits hall (List.mem_of_head? hfirst) with ⟨p, hp, rfl, hread⟩
  rcases matches_one_iff.1 hread.opening with ⟨d', ho, -⟩
  have hb := matches_empty_iff.1 hread.bridge
  have hcl := matches_empty_iff.1 hread.closing
  have hm : p.name = name := by
    have hsame := hread.name
    rw [Pass.nameRegex, matches_literal_iff] at hsame
    exact (List.forall₂_eq_eq_eq ▸ hsame.imp fun a b hab => by simpa [Pass.loose] using hab :
      name = p.name).symm
  rw [Parts.text, ho, hb, hcl, hm] at hp
  have hstart : ∀ s, StartsName (name ++ s) := by
    intro s
    rcases List.exists_cons_of_ne_nil hne with ⟨k, cs, rfl⟩
    exact hname
  rcases eq_of_lead_append hread.lead hld (hstart _) (hstart _) (List.cons.inj hp).2 with ⟨-, hrest⟩
  have hafter : p.rest = c :: after := List.append_cancel_left hrest
  have haccepts : Pass.loose.accepts (p.hit Pass.loose) = true := by
    rw [Pass.accepts, Parts.hit, hafter]
    exact hc
  rw [Pass.mention?, hfirst, Option.filter_some_pos haccepts]
  simp

/-- The name stands between delimiters in a quoted value, maybe after leading segments. -/
def StandsApart (name quoted : List Char) : Prop :=
  ∃ before d ld c after, quoted = before ++ d :: (ld ++ (name ++ c :: after)) ∧ Opens d ∧
    Matches lead ld ∧ closesLoose c = true

theorem replace?_loose_ne_none {name quoted : List Char} (hne : name ≠ []) (hname : StartsName name)
    (h : StandsApart name quoted) (reference : List Char) :
    Pass.loose.replace? name reference quoted ≠ none := by
  rcases h with ⟨before, d, ld, c, after, hquoted, hd, hld, hc⟩
  intro hnone
  have hcut : (cut (Pass.loose.mention? name) quoted).any Piece.isMention = false := by
    by_contra htouched
    simp only [Bool.not_eq_false] at htouched
    unfold Pass.replace? at hnone
    simp [htouched] at hnone
  exact mention?_loose_ne_none hne hname hd hld hc
    (find_eq_none_of_cut hcut ⟨before, hquoted.symm⟩ (by simp))

/-- An attribute whose value is the former name of a moved file comes out with the reference to
that file, whatever stands around it, if no name that is taken earlier can be read in the quoted
former name and no name that is taken later in the quoted reference. The names hold no double quote
and do not end in an equals sign, so none of them runs over the start of an attribute, and neither
value ends in what opens a mention. On the other hand, the loose pass does take part of a quoted
value for a mention wherever another name stands between delimiters in it. -/
theorem update_oldName {moved earlier later : List Moved} {file : Moved} {dir : Path}
    {kw : List Char} (hkey : Key kw) (horder : inOrder moved = earlier ++ file :: later)
    (hnames : ∀ other ∈ moved, Apart '"' other.oldName.toList)
    (hname : IsValue '"' file.oldName.toList) (hreference : IsValue '"' (file.reference dir))
    (hself : OnlyWhole file.oldName.toList ('"' :: (file.reference dir ++ ['"']))) :
    ((∀ other ∈ earlier, ¬ StandsIn other.oldName.toList
        ('"' :: (file.oldName.toList ++ ['"']))) →
      (∀ other ∈ later, ¬ StandsIn other.oldName.toList
        ('"' :: (file.reference dir ++ ['"']))) →
      ∀ pre post, ∃ pre' post', (update true moved dir ('"' :: post)).text = '"' :: post' ∧
        (update true moved dir
          (withAttribute pre kw '"' file.oldName.toList ('"' :: post))).text =
            withAttribute pre' kw '"' (file.reference dir) ('"' :: post')) ∧
    ∀ other ∈ moved, other.oldName ≠ "" → StartsName other.oldName.toList → ∀ value,
      StandsApart other.oldName.toList ('"' :: (value ++ ['"'])) →
      Pass.loose.replace? other.oldName.toList (other.reference dir) ('"' :: (value ++ ['"'])) ≠
        none := by
  constructor
  · intro hearlier hlater pre post
    have hquote : IsQuote '"' := Or.inl rfl
    have hturns := turns_update true horder hkey hquote hnames hname hreference
      ⟨[], file.oldName.toList, rfl, .done, .refl _⟩ (onlyWhole_self _ _) hself hearlier hlater
    rcases hturns _ rfl pre post with ⟨pre', _, post', rfl, hpost, htext⟩
    exact ⟨pre', post', hpost, htext⟩
  · intro other _ hne hstarts value hstands
    exact replace?_loose_ne_none (by simpa using hne) hstarts hstands _

/-- Two stylesheets, of which one name is the end of the other one. -/
def stylesheets : List Moved :=
  [⟨"main.css", "css/main.css", ⟨"/site/css/main.css"⟩⟩,
    ⟨"in.css", "css/in.css", ⟨"/site/css/in.css"⟩⟩]

theorem inOrder_stylesheets : inOrder stylesheets = stylesheets := by
  rw [inOrder, List.mergeSort_of_pairwise (by decide +kernel)]

/-- The shorter name stays out of the reference to the other stylesheet. -/
theorem update_oldName_of_stylesheets :
    ∃ pre' post', (update true stylesheets ⟨"/site"⟩ ('"' :: ">".toList)).text = '"' :: post' ∧
      (update true stylesheets ⟨"/site"⟩ (withAttribute "<link ".toList "href".toList '"'
        "main.css".toList ('"' :: ">".toList))).text =
          withAttribute pre' "href".toList '"' "css/main.css".toList ('"' :: post') := by
  have hreference : Moved.reference ⟨"/site"⟩ ⟨"main.css", "css/main.css", ⟨"/site/css/main.css"⟩⟩ =
      "css/main.css".toList := by decide +kernel
  have hplain : PlainValue "css/main.css".toList := by decide +kernel
  have hquote : IsQuote '"' := Or.inl rfl
  have hstands : ¬ StandsIn "in.css".toList ('"' :: ("css/main.css".toList ++ ['"'])) := by
    intro h
    have hstarts : StartsName "css/main.css".toList := by decide +kernel
    have hstarts' : StartsName "in.css".toList := by decide +kernel
    have hspelled : Spelled "in.css".toList "css/main.css".toList :=
      @spelled_of_standsIn [] _ _ _ hquote hplain .done hstarts hstarts' h
    exact absurd hspelled (by decide +kernel)
  rw [← hreference] at hplain hstands ⊢
  exact (update_oldName (Or.inl (.refl _)) inOrder_stylesheets (by decide +kernel)
    (by decide +kernel) (by decide +kernel) (onlyWhole_of_plain hplain hquote)).1
    (fun _ h => absurd h List.not_mem_nil) (by simpa using hstands) _ _

/-- Two pictures, of which one name is what comes after a blank in the other one. -/
def pictures : List Moved :=
  [⟨"a b.png", "img/a b.png", ⟨"/site/img/a b.png"⟩⟩, ⟨"b.png", "img/b.png", ⟨"/site/img/b.png"⟩⟩]

/-- Taking long names first does not keep a reference whole: the loose pass takes the blank for a
delimiter, and the shorter name eats the end of the reference to the other picture. -/
theorem update_pictures : inOrder pictures = pictures ∧
    Path.reference ⟨"/site"⟩ ⟨"/site/img/a b.png"⟩ = "img/a b.png" ∧
    (update true pictures ⟨"/site"⟩ "<a href=\"a b.png\">".toList).text =
      "<a href=\"img/a img/b.png\">".toList := by
  have horder : inOrder pictures = pictures := by
    rw [inOrder, List.mergeSort_of_pairwise (by decide +kernel)]
  refine ⟨horder, by decide +kernel, ?_⟩
  rw [update, horder]
  decide +kernel

end SiteFolders.Reference
