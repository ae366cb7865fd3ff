import SiteFolders.Proofs.Reference.Reading
import SiteFolders.Proofs.Regex.Written
import SiteFolders.Reference.Template

/-!
# Templates

What is filled in a template is not searched for places again (`source_eq`), and an escaped name is
read back as its characters (`print_ofChars`). So the written form of a pass is read as the expression
that the pass matches with, whatever the name is (`Layout.IsOf.writes_source`): it is what is written of
a syntax tree (`Layout.whole`), and the tree has the factors of that expression.
-/

namespace SiteFolders.Reference

open SiteFolders.Text Regex

/-! ## Filling -/

section Fill

variable {b : Char} {m new : List Char}

/-- Where no place starts, nothing is filled in. -/
theorem fill_append {front : List Char} (h : b ∉ front) (rest : List Char) :
    fill (b :: m) new 0 (front ++ rest) = front ++ fill (b :: m) new 0 rest := by
  induction front with
  | nil => rfl
  | cons c front ih =>
    obtain ⟨hc, hfront⟩ := not_or.1 (mt List.mem_cons.2 h)
    have hprefix : (b :: m).isPrefixOf (c :: (front ++ rest)) = false := by
      simp [List.isPrefixOf, hc]
    rw [List.cons_append, fill, hprefix, if_neg Bool.false_ne_true, ih hfront, List.cons_append]

theorem fill_of_notMem {text : List Char} (h : b ∉ text) : fill (b :: m) new 0 text = text := by
  have happend : fill (b :: m) new 0 (text ++ []) = text ++ fill (b :: m) new 0 [] :=
    fill_append h []
  rwa [List.append_nil, fill, List.append_nil] at happend

theorem fill_skip (marker new : List Char) : ∀ (skipped rest : List Char),
    fill marker new skipped.length (skipped ++ rest) = fill marker new 0 rest
  | [], _ => rfl
  | _ :: skipped, rest => fill_skip marker new skipped rest

theorem fill_marker (rest : List Char) :
    fill (b :: m) new 0 (b :: m ++ rest) = new ++ fill (b :: m) new 0 rest := by
  have hprefix : (b :: m).isPrefixOf (b :: m ++ rest) = true :=
    List.isPrefixOf_iff_prefix.2 (List.prefix_append _ _)
  rw [List.cons_append] at hprefix ⊢
  rw [fill, if_pos hprefix, List.length_cons, Nat.add_sub_cancel, fill_skip]

end Fill

/-- A template with one place for the leading segments and one for the name is filled in there and
nowhere else, whatever the name is. -/
theorem source_eq {pass : Pass} {front back : List Char} (hfront : '\x7b' ∉ front)
    (hback : '\x7b' ∉ back) (h : pass.template.toList = front ++ (leadMarker ++ (nameMarker ++ back)))
    (name : List Char) : pass.source name = front ++ (leadSource ++ (escaped name ++ back)) := by
  have hlead : '\x7b' ∉ leadSource := by decide
  have hkey : '\x7b' ∉ "name\x7d".toList := by decide
  -- both places start with a brace, but after that the place for the name is another text
  have hname : fill leadMarker leadSource 0 (nameMarker ++ back) = nameMarker ++ back := by
    change '\x7b' :: fill leadMarker leadSource 0 ("name\x7d".toList ++ back) = _
    rw [leadMarker, fill_append hkey, fill_of_notMem hback]
    rfl
  have hmarker : fill leadMarker leadSource 0 (leadMarker ++ (nameMarker ++ back)) =
      leadSource ++ fill leadMarker leadSource 0 (nameMarker ++ back) := fill_marker _
  calc pass.source name
    _ = fill nameMarker (escaped name) 0
        (front ++ fill leadMarker leadSource 0 (leadMarker ++ (nameMarker ++ back))) := by
      rw [Pass.source, h, leadMarker, fill_append hfront]
    _ = fill nameMarker (escaped name) 0 (front ++ (leadSource ++ (nameMarker ++ back))) := by
      rw [hmarker, hname]
    _ = front ++ (leadSource ++ (escaped name ++ back)) := by
      rw [nameMarker, fill_append hfront, fill_append hlead, fill_marker, fill_of_notMem hback]

/-- A text is read as an expression that matches what a given one matches. -/
def Pass.Writes (pass : Pass) (source : List Char) (r : Regex) : Prop :=
  ∃ part, pass.read source = .ok part ∧ Same part.regex r

theorem usual_flags (pass : Pass) : pass.flags.Usual := ⟨rfl, rfl⟩

theorem writes_print {pass : Pass} {c : Choice} {r : Regex} (hfits : c.fits pass.flags = true)
    (hfactors : (c.regex pass.flags).factors = r.factors) : pass.Writes c.print r :=
  ⟨.choice (c.parts pass.flags), read_print (usual_flags pass) c hfits, same_of_factors_eq hfactors⟩

/-- The characters of a text are written as the escaped text. -/
theorem print_ofChars (name : List Char) : (Sequence.ofChars name).print = escaped name := by
  induction name with
  | nil => rfl
  | cons c name ih =>
    simp only [Sequence.ofChars, Sequence.print, Atom.print, Times.print, List.nil_append, ih]
    rfl

/-! ## Layouts -/

/-- The syntax trees of what a template holds around the file name. -/
structure Layout where
  opening : Choice
  bridge : Sequence
  closing : Sequence

/-- Leading segments. -/
def leadAtom : Atom :=
  .group false (.or (.cons (.char '.') .once (.cons (.char '/') .optional .nil))
    (.last (.ofChars "../".toList)))

/-- Either quote. -/
def quoteAtom : Atom := .among '"' ['\x27'] false (by decide)

/-- The end of a mention, in a group if the pass keeps it. -/
def Layout.ending (l : Layout) (keeps : Bool) : Sequence :=
  if keeps then .cons (.group true (.last l.closing)) .once .nil else l.closing

/-- The whole written form of a pass for a file name. -/
def Layout.whole (l : Layout) (keeps : Bool) (name : List Char) : Sequence :=
  .cons (.group true l.opening) .once
    (l.bridge ++ .cons leadAtom .any (.ofChars name ++ l.ending keeps))

theorem Layout.print_ending (l : Layout) (keeps : Bool) : (l.ending keeps).print =
    if keeps then '(' :: (l.closing.print ++ [')']) else l.closing.print := by
  cases keeps <;> simp [Layout.ending, Sequence.print, Atom.print, Times.print, Choice.print]

/-- The written form starts with a group for the opening. -/
theorem Layout.print_whole (l : Layout) (keeps : Bool) (name : List Char) :
    (l.whole keeps name).print = '(' :: (l.opening.print ++ ')' :: l.bridge.print) ++
      (leadSource ++ (escaped name ++ (l.ending keeps).print)) := by
  have hlead : leadAtom.print ++ Times.any.print = leadSource := by rfl
  simp [Layout.whole, Sequence.print, Atom.print, Times.print, print_ofChars, ← hlead]

/-- The layout of attributes with a name. -/
def Layout.attribute (key : String) : Layout where
  opening := .last (.ofChars key.toList ++ .ofList
    [(.blank, .any), (.char '=', .once), (.blank, .any), (quoteAtom, .once)])
  bridge := .nil
  closing := .ofList [(quoteAtom, .once)]

/-- The layout of stylesheet values. -/
def Layout.cssUrl : Layout where
  opening := .last (.ofChars "url".toList ++ .ofList
    [(.char '(', .once), (.blank, .any), (quoteAtom, .optional)])
  bridge := .nil
  closing := .ofList [(quoteAtom, .optional), (.blank, .any), (.char ')', .once)]

/-- The layout of script imports with a keyword. -/
def Layout.imports (key : String) : Layout where
  opening := .last (.ofChars key.toList ++ .ofList [(.blank, .some), (quoteAtom, .once)])
  bridge := .nil
  closing := .ofList [(quoteAtom, .once)]

/-- The layout of stylesheet imports. -/
def Layout.cssImport : Layout where
  opening := .last (.ofChars "@import".toList ++ .ofList
    [(.blank, .some),
      (.group false (.last (.ofChars "url".toList ++ .ofList
        [(.char '(', .once), (.blank, .any)])), .optional),
      (quoteAtom, .once)])
  bridge := .nil
  closing := .ofList
    [(quoteAtom, .once), (.blank, .any), (.char ')', .optional), (.char ';', .once)]

/-- The keywords of PHP that read another file. -/
def phpChoice : Choice :=
  .or (.ofChars "include_once".toList) (.or (.ofChars "include".toList)
    (.or (.ofChars "require_once".toList) (.last (.ofChars "require".toList))))

/-- The layout of PHP includes written as calls. -/
def Layout.phpIncludeCall : Layout where
  opening := phpChoice
  bridge := .ofList [(.blank, .any), (.char '(', .once), (.blank, .any), (quoteAtom, .once)]
  closing := .ofList [(quoteAtom, .once), (.blank, .any), (.char ')', .once)]

/-- The layout of PHP includes written as statements. -/
def Layout.phpIncludeStatement : Layout where
  opening := phpChoice
  bridge := .ofList [(.blank, .some), (quoteAtom, .once)]
  closing := .ofList [(quoteAtom, .once)]

/-- The layout of loose mentions. -/
def Layout.loose : Layout where
  opening := .last (.ofList [(.among '"' ['\x27', '('] true (by decide), .once)])
  bridge := .nil
  closing := .nil

/-- True if a pass writes a layout: its template is the layout with the places for the leading segments
and the name, no brace stands anywhere else, and nothing is too large to be read. -/
def Layout.isWritten (l : Layout) (pass : Pass) : Bool :=
  pass.template.toList == '(' :: (l.opening.print ++ ')' :: l.bridge.print) ++
      (leadMarker ++ (nameMarker ++ (l.ending pass.keepsClosing).print)) &&
    !(l.whole pass.keepsClosing []).print.contains '\x7b' &&
    (l.whole pass.keepsClosing []).fits pass.flags

/-- A layout stands for what a pass matches with, part by part. -/
structure Layout.StandsFor (l : Layout) (pass : Pass) : Prop where
  opening : (l.opening.regex pass.flags).factors = pass.opening.factors
  bridge : (l.bridge.regex pass.flags).factors = pass.bridge.factors
  closing : (l.closing.regex pass.flags).factors = pass.closing.factors

/-- A layout that is the one of a pass. -/
structure Layout.IsOf (l : Layout) (pass : Pass) : Prop extends l.StandsFor pass where
  written : l.isWritten pass = true

theorem regex_blank (flags : Flags) : Atom.blank.regex flags = .one isBlank := rfl

/-- A mark stands for itself, whether letter case counts or not. -/
theorem regex_mark {flags : Flags} (hflags : flags.Usual) {c : Char} (hc : c.toNat < 0x41) :
    (Atom.char c).regex flags = mark c := by
  rw [Atom.regex, Atom.part, charSet, sameFold_mark hc, if_pos hflags.unicode, ite_self, mark]

theorem factors_leadAtom {flags : Flags} (hflags : flags.Usual) :
    (Regex.star (leadAtom.regex flags)).factors = lead.factors := by
  have hdots : ((Sequence.ofChars "../".toList).regex flags).factors =
      (Regex.concat [mark '.', mark '.', mark '/']).factors := by
    simp (disch := decide) only [show "../".toList = ['.', '.', '/'] by rfl, Sequence.ofChars,
      Sequence.factors_cons, Sequence.factors_nil, regex_mark hflags]
    rfl
  simp (disch := decide) only [leadAtom, Atom.regex_group, Choice.regex_or, Choice.regex_last, factors,
    Times.regex, hdots, Sequence.factors_cons, Sequence.factors_nil, regex_mark hflags]
  rfl

section IgnoreCase

variable {flags : Flags} (hflags : flags.Usual) (hcase : flags.ignoreCase = true)
include hflags hcase

theorem charSet_of_ignoreCase (c : Char) : charSet flags c = sameFold c := by
  rw [charSet, if_pos hcase, if_pos hflags.unicode]

theorem regex_quoteAtom : quoteAtom.regex flags = quote := by
  have hset : amongSet ['"', '\x27'] false = fun c => c == '"' || c == '\x27' := by
    funext c
    simp [amongSet, Bool.beq_eq_decide_eq]
  have hmarks : ∀ c : Char, (c == '"' || c == '\x27') = true → c.toNat < 0x41 := by
    intro c hc
    rcases (by simpa using hc : c = '"' ∨ c = '\x27') with rfl | rfl <;> decide
  simp only [quoteAtom, Atom.regex, Atom.part, closeSet, hcase, hflags.unicode, if_true, hset,
    foldClosure_marks hmarks, quote]

/-- A keyword is written as its characters. -/
theorem factors_word (key : String) :
    ((Sequence.ofChars key.toList).regex flags).factors = (word key).factors := by
  simp only [Sequence.factors_ofChars, charSet_of_ignoreCase hflags hcase, word, factors_literal]

theorem factors_attribute (key : String) : ((Layout.attribute key).opening.regex flags).factors =
    (Regex.concat [word key, blanks, mark '=', blanks, quote]).factors := by
  simp (disch := decide) only [Layout.attribute, Choice.regex_last, Sequence.factors_append,
    factors_word hflags hcase, Sequence.ofList, Sequence.factors_cons, Sequence.factors_nil, regex_blank,
    regex_mark hflags, regex_quoteAtom hflags hcase, factors_concat]
  rfl

theorem factors_imports (key : String) : ((Layout.imports key).opening.regex flags).factors =
    (Regex.concat [word key, someBlanks, quote]).factors := by
  simp only [Layout.imports, Choice.regex_last, Sequence.factors_append, factors_word hflags hcase,
    Sequence.ofList, Sequence.factors_cons, Sequence.factors_nil, regex_blank,
    regex_quoteAtom hflags hcase, factors_concat]
  rfl

theorem factors_quote :
    ((Sequence.ofList [(quoteAtom, .once)]).regex flags).factors = quote.factors := by
  simp only [Sequence.ofList, Sequence.factors_cons, Sequence.factors_nil, regex_quoteAtom hflags hcase]
  rfl

theorem factors_phpChoice : (phpChoice.regex flags).factors = phpKeyword.factors := by
  have hword : ∀ key : String, Regex.concat ((Sequence.ofChars key.toList).regex flags).factors =
      Regex.concat (word key).factors := fun key => by rw [factors_word hflags hcase]
  simp only [phpChoice, Choice.regex_or, Choice.regex_last, factors, hword]
  rfl

end IgnoreCase

/-! ## The layouts of the table -/

theorem standsFor_href : (Layout.attribute "href").StandsFor .href where
  opening := factors_attribute (usual_flags _) rfl "href"
  bridge := rfl
  closing := factors_quote (usual_flags _) rfl

theorem standsFor_src : (Layout.attribute "src").StandsFor .src where
  opening := factors_attribute (usual_flags _) rfl "src"
  bridge := rfl
  closing := factors_quote (usual_flags _) rfl

theorem standsFor_cssUrl : Layout.cssUrl.StandsFor .cssUrl where
  opening := by
    simp (disch := decide) only [Layout.cssUrl, Choice.regex_last, Sequence.factors_append,
      factors_word (usual_flags Pass.cssUrl) rfl, Sequence.ofList, Sequence.factors_cons,
      Sequence.factors_nil, regex_blank, regex_mark (usual_flags Pass.cssUrl),
      regex_quoteAtom (usual_flags Pass.cssUrl) rfl]
    rfl
  bridge := rfl
  closing := by
    simp (disch := decide) only [Layout.cssUrl, Sequence.ofList, Sequence.factors_cons,
      Sequence.factors_nil, regex_blank, regex_mark (usual_flags Pass.cssUrl),
      regex_quoteAtom (usual_flags Pass.cssUrl) rfl]
    rfl

theorem standsFor_importFrom : (Layout.imports "from").StandsFor .importFrom where
  opening := factors_imports (usual_flags _) rfl "from"
  bridge := rfl
  closing := factors_quote (usual_flags _) rfl

theorem standsFor_importBare : (Layout.imports "import").StandsFor .importBare where
  opening := factors_imports (usual_flags _) rfl "import"
  bridge := rfl
  closing := factors_quote (usual_flags _) rfl

theorem standsFor_cssImport : Layout.cssImport.StandsFor .cssImport where
  opening := by
    have hflags := usual_flags .cssImport
    have hurl : ((Sequence.ofChars "url".toList ++ .ofList [(.char '(', .once), (.blank, .any)]).regex
        Pass.cssImport.flags).factors = (Regex.concat [word "url", mark '(', blanks]).factors := by
      simp (disch := decide) only [Sequence.factors_append, factors_word hflags rfl, Sequence.ofList,
        Sequence.factors_cons, Sequence.factors_nil, regex_blank, regex_mark hflags]
      rfl
    simp only [Layout.cssImport, Choice.regex_last, Sequence.factors_append, factors_word hflags rfl,
      Sequence.ofList, Sequence.factors_cons, Sequence.factors_nil, regex_blank, Atom.regex_group,
      regex_quoteAtom hflags rfl, Times.regex, opt, factors] at hurl ⊢
    rw [hurl]
    rfl
  bridge := rfl
  closing := by
    have hflags := usual_flags .cssImport
    simp (disch := decide) only [Layout.cssImport, Sequence.ofList, Sequence.factors_cons,
      Sequence.factors_nil, regex_blank, regex_mark hflags, regex_quoteAtom hflags rfl]
    rfl

theorem standsFor_phpIncludeCall : Layout.phpIncludeCall.StandsFor .phpIncludeCall where
  opening := factors_phpChoice (usual_flags _) rfl
  bridge := by
    have hflags := usual_flags .phpIncludeCall
    simp (disch := decide) only [Layout.phpIncludeCall, Sequence.ofList, Sequence.factors_cons,
      Sequence.factors_nil, regex_blank, regex_mark hflags, regex_quoteAtom hflags rfl]
    rfl
  closing := by
    have hflags := usual_flags .phpIncludeCall
    simp (disch := decide) only [Layout.phpIncludeCall, Sequence.ofList, Sequence.factors_cons,
      Sequence.factors_nil, regex_blank, regex_mark hflags, regex_quoteAtom hflags rfl]
    rfl

theorem standsFor_phpIncludeStatement : Layout.phpIncludeStatement.StandsFor .phpIncludeStatement where
  opening := factors_phpChoice (usual_flags _) rfl
  bridge := by
    simp only [Layout.phpIncludeStatement, Sequence.ofList, Sequence.factors_cons, Sequence.factors_nil,
      regex_blank, regex_quoteAtom (usual_flags Pass.phpIncludeStatement) rfl]
    rfl
  closing := factors_quote (usual_flags _) rfl

theorem standsFor_loose : Layout.loose.StandsFor .loose where
  opening := by
    have hset : amongSet ['"', '\x27', '('] true =
        fun c => c == '"' || c == '\x27' || c == '(' || isBlank c := by
      funext c
      simp [amongSet, Bool.beq_eq_decide_eq, Bool.or_assoc]
    change [Regex.one (amongSet ['"', '\x27', '('] true)] = _
    rw [hset]
    rfl
  bridge := rfl
  closing := rfl

/-- The layouts of the passes. -/
def layouts : List (Layout × Pass) :=
  [(.attribute "href", .href), (.attribute "src", .src), (.cssUrl, .cssUrl), (.imports "from", .importFrom),
    (.imports "import", .importBare), (.cssImport, .cssImport), (.phpIncludeCall, .phpIncludeCall),
    (.phpIncludeStatement, .phpIncludeStatement), (.loose, .loose)]

/-- Every pass writes its layout. -/
theorem isWritten_layouts : (layouts.all fun x => x.1.isWritten x.2) = true := by decide +kernel

/-- Every layout stands for what its pass matches with. -/
theorem standsFor_layouts : ∀ x ∈ layouts, x.1.StandsFor x.2 := by
  simp only [layouts, List.forall_mem_cons, List.not_mem_nil, false_imp_iff, implies_true, and_true]
  exact ⟨standsFor_href, standsFor_src, standsFor_cssUrl, standsFor_importFrom, standsFor_importBare,
    standsFor_cssImport, standsFor_phpIncludeCall, standsFor_phpIncludeStatement, standsFor_loose⟩

/-- Every pass of the table has a layout. -/
theorem exists_isOf {pass : Pass} (hpass : pass ∈ Pass.all) : ∃ l : Layout, l.IsOf pass := by
  have hpasses : Pass.all = layouts.map Prod.snd := rfl
  rw [hpasses, List.mem_map] at hpass
  obtain ⟨⟨l, _⟩, hx, rfl⟩ := hpass
  exact ⟨l, standsFor_layouts _ hx, List.all_eq_true.1 isWritten_layouts _ hx⟩

/-! ## The written form as it is read -/

/-- The expression that a pass matches with. -/
def Pass.regex (pass : Pass) (name : List Char) : Regex :=
  .concat [pass.opening, pass.bridge, lead, pass.nameRegex name, pass.closing]

/-- The name is read as its characters, letter case aside if the pass does so. -/
theorem factors_name (pass : Pass) (name : List Char) :
    ((Sequence.ofChars name).regex pass.flags).factors = (pass.nameRegex name).factors := by
  cases hcase : pass.ignoreCase with
  | true =>
    simp only [Sequence.factors_ofChars, charSet_of_ignoreCase (usual_flags pass) hcase, Pass.nameRegex,
      hcase, if_true, factors_literal]
  | false =>
    have hset : ∀ c, charSet pass.flags c = fun d => c == d := by
      intro c
      funext d
      simp [charSet, Pass.flags, hcase, Bool.beq_comm]
    simp only [Sequence.factors_ofChars, hset, Pass.nameRegex, hcase, factors_literal]
    rfl

namespace Layout.IsOf

variable {l : Layout} {pass : Pass} (h : l.IsOf pass)
include h

theorem template : pass.template.toList = '(' :: (l.opening.print ++ ')' :: l.bridge.print) ++
    (leadMarker ++ (nameMarker ++ (l.ending pass.keepsClosing).print)) := by
  have hwritten := h.written
  simp only [Layout.isWritten, Bool.and_eq_true, beq_iff_eq] at hwritten
  exact hwritten.1.1

theorem brace_notMem : '\x7b' ∉ (l.whole pass.keepsClosing []).print := by
  have hwritten := h.written
  simp only [Layout.isWritten, Bool.and_eq_true, Bool.not_eq_true'] at hwritten
  intro hmem
  rw [List.contains_iff_mem.2 hmem] at hwritten
  cases hwritten.1.2

theorem fits_whole (name : List Char) :
    (l.whole pass.keepsClosing name).fits pass.flags = true := by
  have hfits : (l.whole pass.keepsClosing []).fits pass.flags = true := by
    have hwritten := h.written
    simp only [Layout.isWritten, Bool.and_eq_true] at hwritten
    exact hwritten.2
  simp only [Layout.whole, Sequence.fits, Sequence.fits_append, Sequence.fits_ofChars] at hfits ⊢
  exact hfits

theorem source_eq (name : List Char) :
    pass.source name = (l.whole pass.keepsClosing name).print := by
  have hplain := h.brace_notMem
  rw [Layout.print_whole, List.mem_append, not_or, List.mem_append, not_or, List.mem_append,
    not_or] at hplain
  obtain ⟨hfront, -, -, hback⟩ := hplain
  rw [Layout.print_whole]
  exact Reference.source_eq hfront hback h.template name

theorem factors_whole (name : List Char) :
    ((l.whole pass.keepsClosing name).regex pass.flags).factors = (pass.regex name).factors := by
  have hending : ((l.ending pass.keepsClosing).regex pass.flags).factors = pass.closing.factors := by
    rw [← h.closing]
    cases pass.keepsClosing <;>
      simp [Layout.ending, Times.regex, Atom.regex_group, Choice.regex_last]
  simp only [Layout.whole, Sequence.factors_cons, Sequence.factors_append,
    factors_leadAtom (usual_flags pass), hending, h.bridge, factors_name, Times.regex,
    Atom.regex_group, h.opening, Pass.regex, factors_concat]
  simp

/-- The parts of the written form are read as the parts of a mention. -/
theorem writes_parts : pass.Writes l.opening.print pass.opening ∧
    pass.Writes l.bridge.print pass.bridge ∧ pass.Writes l.closing.print pass.closing := by
  have hfits := h.fits_whole []
  simp only [Layout.whole, Sequence.fits, Sequence.fits_append, Bool.and_eq_true] at hfits
  obtain ⟨⟨hopening, -⟩, hbridge, -, -, hending⟩ := hfits
  have hclosing : l.closing.fits pass.flags = true := by
    cases hkeeps : pass.keepsClosing with
    | false => simpa [Layout.ending, hkeeps] using hending
    | true =>
      simp only [Layout.ending, hkeeps, if_true, Sequence.fits, Bool.and_eq_true] at hending
      exact hending.1.1
  exact ⟨writes_print hopening h.opening, writes_print (c := .last l.bridge) hbridge h.bridge,
    writes_print (c := .last l.closing) hclosing h.closing⟩

/-- The written form of a pass is read as the expression that the pass matches with, whatever the
name is. -/
theorem writes_source (name : List Char) : pass.Writes (pass.source name) (pass.regex name) := by
  rw [h.source_eq]
  exact writes_print (c := .last (l.whole pass.keepsClosing name)) (h.fits_whole name)
    (h.factors_whole name)

end Layout.IsOf

/-- The expression for leading segments is read as any run of them. -/
theorem writes_leadSource (pass : Pass) : pass.Writes leadSource lead := by
  have hfits : (Choice.last (.cons leadAtom .any .nil)).fits pass.flags = true := by
    rw [Pass.flags]
    cases pass.ignoreCase <;> decide
  refine writes_print (c := .last (.cons leadAtom .any .nil)) hfits ?_
  rw [Choice.regex_last, Sequence.factors_cons, Sequence.factors_nil, List.append_nil]
  exact factors_leadAtom (usual_flags pass)

/-- An escaped name is read as the characters of the name, whatever they are. -/
theorem writes_escaped (pass : Pass) (name : List Char) :
    pass.Writes (escaped name) (pass.nameRegex name) := by
  rw [← print_ofChars]
  exact writes_print (c := .last (.ofChars name)) (Sequence.fits_ofChars _ name) (factors_name pass name)

end SiteFolders.Reference
