import SiteFolders.Proofs.Reference.Attribute

/-!
# Values of attributes

An update writes a text anew once for every pass and every moved file. Each of these steps takes an
attribute to an attribute, and `Turns` says which values it takes to which. Steps compose, so a
whole update turns the former name of a moved file into the reference to it (`update_attribute`), as
long as no other recorded name can be read in the value, before it is replaced or after.
-/

namespace SiteFolders.Reference

open SiteFolders.Text Regex

/-- A step that takes every attribute with a value of one kind to one with a value of another kind,
and writes what follows the value as if it stood alone. -/
def Turns (kw : List Char) (q : Char) (before after : List Char → Prop)
    (step : List Char → List Char) : Prop :=
  ∀ value, before value → ∀ pre post, ∃ pre' value' post', after value' ∧
    step (q :: post) = q :: post' ∧
    step (withAttribute pre kw q value (q :: post)) = withAttribute pre' kw q value' (q :: post')

section

variable {kw : List Char} {q : Char} {P Q R : List Char → Prop}

theorem Turns.rfl : Turns kw q P P id :=
  fun value h pre post => ⟨pre, value, post, h, Eq.refl _, Eq.refl _⟩

theorem Turns.trans {f g : List Char → List Char} (hf : Turns kw q P Q f) (hg : Turns kw q Q R g) :
    Turns kw q P R fun text => g (f text) := by
  intro value hvalue pre post
  rcases hf value hvalue pre post with ⟨pre', value', post', hvalue', hpost, htext⟩
  rcases hg value' hvalue' pre' post' with ⟨pre'', value'', post'', hvalue'', hpost', htext'⟩
  exact ⟨pre'', value'', post'', hvalue'', by simp only [hpost, hpost'],
    by simp only [htext, htext']⟩

theorem Turns.imp {P' Q' : List Char → Prop} {f : List Char → List Char} (hf : Turns kw q P Q f)
    (hP : ∀ value, P' value → P value) (hQ : ∀ value, Q value → Q' value) : Turns kw q P' Q' f := by
  intro value hvalue pre post
  obtain ⟨pre', value', post', hvalue', hwritten⟩ := hf value (hP value hvalue) pre post
  exact ⟨pre', value', post', hQ value' hvalue', hwritten⟩

theorem Turns.or {f : List Char → List Char} (hP : Turns kw q P R f) (hQ : Turns kw q Q R f) :
    Turns kw q (fun value => P value ∨ Q value) R f :=
  fun value h => h.elim (hP value) (hQ value)

/-- Steps that keep the kind of a value do so one after another. -/
theorem Turns.foldl {α : Type} {step : α → List Char → List Char} :
    ∀ {as : List α}, (∀ a ∈ as, Turns kw q P P (step a)) →
      Turns kw q P P fun text => as.foldl (fun text a => step a text) text
  | [], _ => Turns.rfl
  | _ :: _, h => (h _ List.mem_cons_self).trans
    (Turns.foldl fun a ha => h a (List.mem_cons_of_mem _ ha))

/-- Among steps that keep two kinds of values, one step turns the first kind into the second. -/
theorem Turns.foldl_of_mem {α : Type} {step : α → List Char → List Char} {as : List α} {a : α}
    (ha : a ∈ as) (hturn : Turns kw q P Q (step a)) (hP : ∀ a ∈ as, Turns kw q P P (step a))
    (hQ : ∀ a ∈ as, Turns kw q Q Q (step a)) :
    Turns kw q P Q fun text => as.foldl (fun text a => step a text) text := by
  rcases List.append_of_mem ha with ⟨front, rest, rfl⟩
  simp only [List.foldl_append, List.foldl_cons]
  exact ((Turns.foldl fun b hb => hP b (by simp [hb])).trans hturn).trans
    (Turns.foldl fun b hb => hQ b (by simp [hb]))

end

/-! ## One moved file -/

/-- The text with every pass of a list applied for one name. -/
def writeAll (passes : List Pass) (name reference text : List Char) : List Char :=
  passes.foldl (fun text pass => pass.write name reference text) text

theorem text_foldl_apply (name reference : List Char) (passes : List Pass) :
    ∀ draft : Draft, (passes.foldl (Draft.apply name reference) draft).text =
      writeAll passes name reference draft.text := by
  induction passes with
  | nil => exact fun _ => rfl
  | cons pass passes ih =>
    intro draft
    rw [List.foldl_cons, ih, text_apply]
    rfl

theorem passes_subset (loose : Bool) : ∀ pass ∈ passes loose, pass ∈ Pass.all := by
  intro pass hpass
  cases loose
  · rw [passes, if_neg (by simp)] at hpass
    exact (List.mem_filter.1 hpass).1
  · exact hpass

/-- Every update has the pass for the keyword of an attribute. -/
theorem exists_isFor {kw : List Char} (hkey : Key kw) (loose : Bool) :
    ∃ pass ∈ passes loose, pass.IsFor kw := by
  rcases hkey with h | h
  · exact ⟨.href, by cases loose <;> simp [passes, Pass.all, Pass.href, Pass.keeping], Or.inl ⟨rfl, h⟩⟩
  · exact ⟨.src, by cases loose <;> simp [passes, Pass.all, Pass.src, Pass.keeping], Or.inr ⟨rfl, h⟩⟩

/-- A name after leading segments is read as the whole of a quoted value. -/
theorem standsIn_lead_append {name ld m : List Char} {q : Char} (hq : IsQuote q)
    (hld : Matches lead ld) (hm : Spelled name m) : StandsIn name (q :: ((ld ++ m) ++ [q])) := by
  refine Or.inr ⟨[], q, ld, m, q, ?_, hld, hm, hq.closesLoose⟩
  rw [List.append_assoc]

section

variable {kw name value reference : List Char} {q : Char} (hkey : Key kw) (hq : IsQuote q)
  (hname : Apart q name) (hvalue : IsValue q value)
include hkey hq hname hvalue

/-- A pass keeps a value, but not the name after leading segments if it is the pass for the keyword,
or it replaces the name after leading segments by the reference. -/
theorem turns_pass {pass : Pass} (hall : pass ∈ Pass.all)
    (honly : OnlyWhole name (q :: (value ++ [q]))) :
    Turns kw q (· = value)
      (fun v => v = value ∧
          (pass.IsFor kw → ∀ ld m, Matches lead ld → Spelled name m → value ≠ ld ++ m) ∨
        v = reference ∧ ∃ ld m, value = ld ++ m ∧ Matches lead ld ∧ Spelled name m)
      (pass.write name reference) := by
  rintro _ rfl pre post
  obtain ⟨post', hpost⟩ := write_quote hall hq name reference post
  obtain ⟨pre', value', htext, hcases⟩ :=
    write_attribute hall hkey hq hvalue hname honly reference pre post
  exact ⟨pre', value', post', hcases, hpost, by rw [htext, hpost]⟩

/-- The passes leave a value in which the name cannot be read. -/
theorem turns_of_not_standsIn (loose : Bool) (hnot : ¬ StandsIn name (q :: (value ++ [q]))) :
    Turns kw q (· = value) (· = value) (writeAll (passes loose) name reference) := by
  refine Turns.foldl fun pass hpass => ?_
  have hturns := @turns_pass kw name value reference q hkey hq hname hvalue pass
    (passes_subset loose pass hpass) (onlyWhole_of_not_standsIn hnot)
  refine hturns.imp (fun _ h => h) fun v hv => ?_
  rcases hv with ⟨hsame, -⟩ | ⟨-, ld, m, hv, hld, hm⟩
  · exact hsame
  · rw [hv] at hnot
    exact absurd (standsIn_lead_append hq hld hm) hnot

/-- The passes replace the name after leading segments by the reference, if the name is not part of
either value. -/
theorem turns_of_onlyWhole (loose : Bool) (hreference : IsValue q reference)
    (honly : OnlyWhole name (q :: (value ++ [q])))
    (honly' : OnlyWhole name (q :: (reference ++ [q])))
    (hreads : ∃ ld m, value = ld ++ m ∧ Matches lead ld ∧ Spelled name m) :
    Turns kw q (· = value) (· = reference) (writeAll (passes loose) name reference) := by
  have hvalues : ∀ pass ∈ passes loose, Turns kw q (· = value)
      (fun v => v = value ∨ v = reference) (pass.write name reference) := fun pass hpass =>
    (turns_pass hkey hq hname hvalue (passes_subset loose pass hpass) honly).imp (fun _ h => h)
      fun _ h => h.imp And.left And.left
  have hreferences : ∀ pass ∈ passes loose, Turns kw q (· = reference) (· = reference)
      (pass.write name reference) := fun pass hpass =>
    (turns_pass hkey hq hname hreference (passes_subset loose pass hpass) honly').imp (fun _ h => h)
      fun _ h => h.elim And.left And.left
  -- the pass for the keyword replaces the value, and the others may do so before it
  obtain ⟨own, hown, hfor⟩ := exists_isFor hkey loose
  have hturns : Turns kw q (· = value) (· = reference) (own.write name reference) := by
    refine (turns_pass hkey hq hname hvalue (passes_subset loose own hown) honly).imp
      (fun _ h => h) fun v hv => ?_
    rcases hv with ⟨-, hnot⟩ | ⟨hreplaced, -⟩
    · obtain ⟨ld, m, hreading, hld, hm⟩ := hreads
      exact absurd hreading (hnot hfor ld m hld hm)
    · exact hreplaced
  have hall := Turns.foldl_of_mem hown (hturns.or (hreferences own hown))
    (fun pass hpass => (hvalues pass hpass).or
      ((hreferences pass hpass).imp (fun _ h => h) fun _ h => Or.inr h)) hreferences
  exact hall.imp (fun _ h => Or.inl h) fun _ h => h

end

/-! ## All moved files -/

/-- The reference to a moved file as seen from a directory. -/
def Moved.reference (dir : Path) (file : Moved) : List Char :=
  (Path.reference dir file.target).toList

theorem text_update (loose : Bool) (moved : List Moved) (dir : Path) (text : List Char) :
    (update loose moved dir text).text = (inOrder moved).foldl (fun text file =>
      writeAll (passes loose) file.oldName.toList (file.reference dir) text) text := by
  have hfold : ∀ (files : List Moved) (draft : Draft),
      (files.foldl (Draft.follow loose dir) draft).text = files.foldl (fun text file =>
        writeAll (passes loose) file.oldName.toList (file.reference dir) text) draft.text := by
    intro files
    induction files with
    | nil => exact fun _ => rfl
    | cons file files ih =>
      intro draft
      rw [List.foldl_cons, ih, Draft.follow, text_foldl_apply]
      rfl
  exact hfold (inOrder moved) ⟨text, false⟩

/-- An attribute with the former name of a moved file after leading segments comes out with the
reference to that file, and with nothing else: no name that is taken earlier may be read in the
former value, none that is taken later in the reference, and the name itself in neither of them
apart from the whole. -/
theorem turns_update {moved earlier later : List Moved} {file : Moved} {dir : Path}
    {kw value : List Char} {q : Char} (loose : Bool)
    (horder : inOrder moved = earlier ++ file :: later) (hkey : Key kw) (hq : IsQuote q)
    (hnames : ∀ other ∈ moved, Apart q other.oldName.toList) (hvalue : IsValue q value)
    (hreference : IsValue q (file.reference dir))
    (hreads : ∃ ld m, value = ld ++ m ∧ Matches lead ld ∧ Spelled file.oldName.toList m)
    (honly : OnlyWhole file.oldName.toList (q :: (value ++ [q])))
    (honly' : OnlyWhole file.oldName.toList (q :: (file.reference dir ++ [q])))
    (hearlier : ∀ other ∈ earlier, ¬ StandsIn other.oldName.toList (q :: (value ++ [q])))
    (hlater : ∀ other ∈ later, ¬ StandsIn other.oldName.toList
      (q :: (file.reference dir ++ [q]))) :
    Turns kw q (· = value) (· = file.reference dir) fun text => (update loose moved dir text).text := by
  have happart : ∀ other ∈ earlier ++ file :: later, Apart q other.oldName.toList := by
    intro other hother
    rw [← horder] at hother
    exact hnames other (List.mem_mergeSort.1 hother)
  simp only [text_update, horder, List.foldl_append, List.foldl_cons]
  refine ((Turns.foldl fun other hother => ?_).trans ?_).trans (Turns.foldl fun other hother => ?_)
  · exact turns_of_not_standsIn hkey hq (happart other (by simp [hother])) hvalue loose
      (hearlier other hother)
  · exact turns_of_onlyWhole hkey hq (happart file (by simp)) hvalue loose hreference honly honly'
      hreads
  · exact turns_of_not_standsIn hkey hq (happart other (by simp [hother])) hreference loose
      (hlater other hother)

/-- A name that stands in a value, and only as the whole of it, is what comes after its leading
segments. -/
theorem of_standsIn {name value : List Char} {q : Char} (hq : IsQuote q)
    (honly : OnlyWhole name (q :: (value ++ [q]))) (h : StandsIn name (q :: (value ++ [q]))) :
    ∃ ld m, value = ld ++ m ∧ Matches lead ld ∧ Spelled name m := by
  have hcut : ∀ {ld m : List Char} {c : Char}, value ++ [q] = ld ++ (m ++ [c]) →
      value = ld ++ m := by
    intro ld m c heq
    rw [← List.append_assoc] at heq
    exact List.append_inj_left' heq rfl
  rcases h with ⟨before, after, hat⟩ | ⟨after, hfirst⟩
  · obtain ⟨rfl, rfl⟩ := honly.1 before after hat
    obtain ⟨pass, hpass, o, b, ld, m, c, htext, ho, hb, hld, hm, -⟩ := hat
    obtain ⟨y, d, hfront, -, hy⟩ := front_last hpass ho hb
    rw [List.nil_append, ← List.append_assoc, hfront, List.append_assoc] at htext
    -- the quote in front is what opens the mention, as no quote comes before that
    cases y with
    | cons k y =>
      obtain ⟨rfl, -⟩ := List.cons.inj htext
      exact absurd hq (hy q (by simp))
    | nil => exact ⟨ld, m, hcut (List.cons.inj htext).2, hld, spelled_of_nameRegex hm⟩
  · obtain rfl := honly.2 after hfirst
    obtain ⟨q', ld, m, c, htext, hld, hm, -⟩ := hfirst
    exact ⟨ld, m, hcut (List.cons.inj htext).2, hld, hm⟩

/-! ## Plain values -/

/-- A value in which nothing opens or closes a mention. -/
def PlainValue (value : List Char) : Prop := ∀ c ∈ value, ¬ Opens c ∧ closesLoose c = false

instance (value : List Char) : Decidable (PlainValue value) := List.decidableBAll _ value

theorem PlainValue.append {u v : List Char} (hu : PlainValue u) (hv : PlainValue v) :
    PlainValue (u ++ v) :=
  fun c hc => (List.mem_append.1 hc).elim (hu c) (hv c)

theorem plainValue_lead {ld : List Char} (h : Matches lead ld) : PlainValue ld := by
  intro c hc
  rcases mem_of_matches_lead h c hc with rfl | rfl <;> decide

section

variable {value name : List Char} {q : Char} (hvalue : PlainValue value)
include hvalue

/-- In a plain value only the quotes open and close a mention. -/
theorem eq_nil_of_plain {y r after : List Char} {d c : Char} (hd : Opens d)
    (hc : closesLoose c = true) (h : q :: (value ++ [q]) = y ++ d :: (r ++ c :: after)) :
    y = [] ∧ value = r ∧ after = [] := by
  cases y with
  | cons k y =>
    have hnot : d ∉ value := fun hmem => (hvalue d hmem).1 hd
    obtain ⟨t, -, ht⟩ := of_append_eq_append_mark (List.cons.inj h).2 hnot
    have hlen := congrArg List.length ht
    simp only [List.length_append, List.length_cons, List.length_nil] at hlen
    omega
  | nil =>
    have hnot : c ∉ value := fun hmem => by simp [(hvalue c hmem).2] at hc
    obtain ⟨t, hr, ht⟩ := of_append_eq_append_mark (List.cons.inj h).2 hnot
    have hlen := congrArg List.length ht
    simp only [List.length_append, List.length_cons, List.length_nil] at hlen
    obtain rfl : t = [] := List.length_eq_zero_iff.1 (by omega)
    exact ⟨rfl, by simpa using hr.symm, List.length_eq_zero_iff.1 (by omega)⟩

/-- In a plain value a name is only read as the whole of it. -/
theorem of_readsAt_plain {before after : List Char}
    (h : ReadsAt name (q :: (value ++ [q])) before after) : before = [] ∧ after = [] ∧
      ∃ ld m, value = ld ++ m ∧ Matches lead ld ∧ Spelled name m := by
  rcases h with ⟨pass, hpass, o, b, ld, m, c, htext, ho, hb, hld, hm, hc⟩
  rcases front_last hpass ho hb with ⟨y, d, hfront, hd, -⟩
  rw [← List.append_assoc o, hfront] at htext
  have hsplit : q :: (value ++ [q]) = (before ++ y) ++ d :: ((ld ++ m) ++ c :: after) := by
    rw [htext]
    simp
  rcases eq_nil_of_plain hvalue hd hc hsplit with ⟨hnil, hv, hafter⟩
  exact ⟨(List.append_eq_nil_iff.1 hnil).1, hafter, ld, m, hv, hld, spelled_of_nameRegex hm⟩

theorem of_readsFirst_plain (hq : IsQuote q) {after : List Char}
    (h : ReadsFirst name (q :: (value ++ [q])) after) :
    after = [] ∧ ∃ ld m, value = ld ++ m ∧ Matches lead ld ∧ Spelled name m := by
  rcases h with ⟨q', ld, m, c, htext, hld, hm, hc⟩
  obtain rfl : q = q' := (List.cons.inj htext).1
  have hsplit : q :: (value ++ [q]) = [] ++ q :: ((ld ++ m) ++ c :: after) := by
    rw [htext]
    simp
  rcases eq_nil_of_plain hvalue (Or.inl hq) hc hsplit with ⟨-, hv, hafter⟩
  exact ⟨hafter, ld, m, hv, hld, hm⟩

theorem onlyWhole_of_plain (hq : IsQuote q) : OnlyWhole name (q :: (value ++ [q])) :=
  ⟨fun _ _ h => ⟨(of_readsAt_plain hvalue h).1, (of_readsAt_plain hvalue h).2.1⟩,
    fun _ h => (of_readsFirst_plain hvalue hq h).1⟩

/-- A name that stands in a plain value is what comes after its leading segments. -/
theorem standsIn_iff_of_plain (hq : IsQuote q) : StandsIn name (q :: (value ++ [q])) ↔
    ∃ ld m, value = ld ++ m ∧ Matches lead ld ∧ Spelled name m := by
  constructor
  · exact of_standsIn hq (onlyWhole_of_plain hvalue hq)
  · rintro ⟨ld, m, rfl, hld, hm⟩
    exact standsIn_lead_append hq hld hm

end

/-- True of texts that leading segments cannot go on with. -/
def StartsName (s : List Char) : Prop := s.head? ≠ some '.' ∧ s.head? ≠ some '/'

instance (s : List Char) : Decidable (StartsName s) := inferInstanceAs (Decidable (_ ∧ _))

/-- Leading segments end where a name starts that they cannot be part of. -/
theorem eq_of_lead_append {ld ld' m m' : List Char} (hld : Matches lead ld)
    (hld' : Matches lead ld') (hm : StartsName m) (hm' : StartsName m') (h : ld ++ m = ld' ++ m') :
    ld = ld' ∧ m = m' := by
  have hstart : ∀ {a t b s : List Char}, Matches lead a → a = b ++ t → StartsName (t ++ s) →
      t = [] := by
    intro a t b s ha hat hs
    cases t with
    | nil => rfl
    | cons c t =>
      rcases mem_of_matches_lead ha c (by rw [hat]; simp) with rfl | rfl
      · exact absurd rfl hs.1
      · exact absurd rfl hs.2
  rcases List.append_eq_append_iff.1 h with ⟨t, ht, rfl⟩ | ⟨t, ht, rfl⟩
  · obtain rfl := hstart hld' ht hm
    exact ⟨by simpa using ht.symm, rfl⟩
  · obtain rfl := hstart hld ht hm'
    exact ⟨by simpa using ht, rfl⟩

/-- A name that stands in a plain value is what comes after its leading segments, in any letter
case. -/
theorem spelled_of_standsIn {ld n name : List Char} {q : Char} (hq : IsQuote q)
    (hvalue : PlainValue (ld ++ n)) (hld : Matches lead ld) (hn : StartsName n)
    (hname : StartsName name) (h : StandsIn name (q :: ((ld ++ n) ++ [q]))) : Spelled name n := by
  rcases (standsIn_iff_of_plain hvalue hq).1 h with ⟨ld', m, hv, hld', hm⟩
  have hstarts : StartsName m :=
    ⟨fun h => hname.1 ((hm.head?_eq_iff (Or.inl (by decide))).1 h),
      fun h => hname.2 ((hm.head?_eq_iff (Or.inl (by decide))).1 h)⟩
  rcases eq_of_lead_append hld hld' hn hstarts hv with ⟨-, rfl⟩
  exact hm

end SiteFolders.Reference
