import SiteFolders.Proofs.Reference.Words

/-!
# Attributes that an update leaves alone

An attribute in quotes stays as it is where the former name of a moved file can neither be read in
its value nor end in it (`Attribute.Spares`): a mention that starts before the attribute ends before
it (`length_le_of_mention`), and none starts in it. So an update takes a text woven of such
attributes to one that is woven of the same ones (`update_weave`).
-/

namespace SiteFolders.Reference

open SiteFolders.Text Regex

/-- An attribute in quotes. Blanks may stand around the sign. -/
structure Attribute where
  keyword : List Char
  before : List Char
  after : List Char
  quote : Char
  value : List Char
deriving DecidableEq

namespace Attribute

/-- What stands in front of the opening quote. -/
def front (a : Attribute) : List Char := a.keyword ++ (a.before ++ '=' :: a.after)

/-- The attribute up to its closing quote. -/
def body (a : Attribute) : List Char := a.front ++ a.quote :: a.value

/-- The whole attribute. -/
def text (a : Attribute) : List Char := a.body ++ [a.quote]

/-- The attribute is one that the passes know, and its closing quote opens no mention together with
what the value ends in. -/
structure IsQuoted (a : Attribute) : Prop where
  keyword : Key a.keyword
  before : AllBlank a.before
  after : AllBlank a.after
  quote : IsQuote a.quote
  quote_notMem : a.quote ∉ a.value
  opens : ∀ v x, a.value = v ++ x → x ≠ [] → ∀ pass ∈ Pass.all, ∀ o br, Matches pass.opening o →
    Matches pass.bridge br → o ++ br ≠ x ++ [a.quote]

/-- The attribute has nothing to do with a name: the name cannot be read in the quoted value, and it
does not end where an attribute goes on. -/
structure Spares (a : Attribute) (name : List Char) : Prop where
  value : ¬ StandsIn name (a.quote :: (a.value ++ [a.quote]))
  quote_notMem : a.quote ∉ name
  last : ∀ c, name.getLast? = some c → c ≠ '=' ∧ isBlank c = false
  keyword : a.before ≠ [] → ∀ u, ¬ Spelled name (u ++ a.keyword)

theorem text_append (a : Attribute) (rest : List Char) :
    a.text ++ rest = a.body ++ a.quote :: rest := by
  simp [text]

/-- A value in quotes that does not end in a sign, a parenthesis or a blank. -/
theorem isQuoted_of_isValue {a : Attribute} (hkey : Key a.keyword) (hbefore : AllBlank a.before)
    (hafter : AllBlank a.after) (hq : IsQuote a.quote) (hvalue : IsValue a.quote a.value) :
    a.IsQuoted where
  keyword := hkey
  before := hbefore
  after := hafter
  quote := hq
  quote_notMem := hvalue.quote_notMem
  opens _ _ hv hx _ hpass _ _ ho hbr := hvalue.front_ne hq hv hx hpass ho hbr

end Attribute

/-! ## Mentions around an attribute -/

/-- A keyword that stands at the end of a name after leading segments does not reach over them. -/
theorem Key.suffix_of_lead {kw y ld m : List Char} {d : Char} (hkey : Key kw) (hd : Opens d)
    (hld : ∀ c ∈ ld, c = '.' ∨ c = '/') (h : kw <:+ ((y ++ [d]) ++ ld) ++ m) : kw <:+ m := by
  refine suffix_of_append h ?_
  intro c hc hmem
  have hletter := hkey.isLetter c hmem
  rw [List.getLast?_append] at hc
  cases hlast : ld.getLast? with
  | none =>
    obtain rfl : d = c := by simpa [hlast] using hc
    exact hletter.not_opens hd
  | some l =>
    obtain rfl : l = c := by simpa [hlast] using hc
    rcases hld l (List.mem_of_getLast? hlast) with rfl | rfl
    all_goals exact hletter.ne_of_isMark (by decide) rfl

section

variable {a : Attribute} (ha : a.IsQuoted)
include ha

/-- A name that ends in front of the opening quote ends with the keyword, the sign or a blank, as
it does not end before a letter or the sign. -/
theorem front_end {n r rest : List Char} {k : Char} (hfront : a.front = n ++ r)
    (hk : (r ++ a.quote :: rest).head? = some k) (hcloses : closesLoose k = true) :
    n = a.keyword ∧ a.before ≠ [] ∨ ∃ c, n.getLast? = some c ∧ (c = '=' ∨ isBlank c = true) := by
  have hsign : closesLoose '=' = false := by decide
  -- where the name ends with the keyword, what comes next is a blank
  have hwhole : r = a.before ++ '=' :: a.after → a.before ≠ [] := by
    rintro rfl hnil
    rw [hnil] at hk
    obtain rfl : '=' = k := by simpa using hk
    simp [hsign] at hcloses
  rcases List.append_eq_append_iff.1 hfront with ⟨t, hnt, ht⟩ | ⟨t, hkeyword, ht⟩
  · cases t with
    | nil =>
      rw [List.append_nil] at hnt
      exact Or.inl ⟨hnt, hwhole (by simpa using ht.symm)⟩
    | cons c t =>
      right
      obtain ⟨e, he⟩ : ∃ e, (c :: t).getLast? = some e := ⟨_, List.getLast?_eq_some_getLast (by simp)⟩
      refine ⟨e, by rw [hnt, List.getLast?_append_of_ne_nil _ (by simp), he], ?_⟩
      have hmem : e ∈ a.before ++ '=' :: a.after := by
        rw [ht]
        exact List.mem_append_left _ (List.mem_of_getLast? he)
      rcases List.mem_append.1 hmem with hmem | hmem
      · exact Or.inr (ha.before e hmem)
      · rcases List.mem_cons.1 hmem with hmem | hmem
        · exact Or.inl hmem
        · exact Or.inr (ha.after e hmem)
  · cases t with
    | nil =>
      rw [List.append_nil] at hkeyword
      exact Or.inl ⟨hkeyword.symm, hwhole ht⟩
    | cons c t =>
      rw [ht] at hk
      obtain rfl : c = k := by simpa using hk
      have hletter := ha.keyword.isLetter c (by simp [hkeyword])
      simp [hletter.not_closes] at hcloses

variable {name : List Char} (hname : a.Spares name) {pass : Pass} (hpass : pass ∈ Pass.all)
  {p : Parts} (hreads : Reads pass name p)
  (hahead : ∀ test, pass.ahead = some test → p.rest.head?.any test = true)
include hname hpass hreads hahead

/-- No name that is read ends behind the opening quote: the quote would open the mention, and then
the name would be read in the value. -/
theorem not_behind_quote {f r post : List Char}
    (hfront : p.opening ++ (p.bridge ++ (p.lead ++ p.name)) = f ++ a.quote :: r)
    (hvalue : a.value ++ a.quote :: post = r ++ (p.closing ++ p.rest)) : False := by
  obtain ⟨⟨k, t, hnext, hcloses⟩, -⟩ := next_cases hpass hreads hahead
  obtain ⟨y, d, hopen, -, hy⟩ := front_last hpass hreads.opening hreads.bridge
  -- neither the leading segments nor the name hold the quote, so it opens the mention
  have hquote : a.quote ∉ p.lead ++ p.name := by
    intro hmem
    rcases List.mem_append.1 hmem with hmem | hmem
    · have hq := ha.quote
      rcases mem_of_matches_lead hreads.lead _ hmem with h | h
      all_goals
        rw [h] at hq
        exact absurd hq (by decide)
    · exact hname.quote_notMem ((hreads.spelled.mem_iff (Or.inl ha.quote.isMark)).1 hmem)
  have hyq : a.quote ∉ y := fun hmem => hy _ hmem ha.quote
  rw [← List.append_assoc, hopen, List.append_assoc, List.singleton_append] at hfront
  obtain ⟨s, rfl, hs⟩ := of_append_eq_append_mark hfront hyq
  cases s with
  | cons c s =>
    obtain ⟨-, htail⟩ := List.cons.inj hs
    rw [htail] at hquote
    exact hquote (by simp)
  | nil =>
    obtain ⟨-, rfl⟩ := List.cons.inj hs
    have hrest : p.lead ++ (p.name ++ (p.closing ++ p.rest)) = a.value ++ a.quote :: post := by
      rw [hvalue, List.append_assoc]
    obtain ⟨after, hafter, -⟩ := exists_after ha.quote hname.quote_notMem hreads hnext hrest
    exact hname.value (Or.inr ⟨after, a.quote, p.lead, p.name, k, by rw [hafter], hreads.lead,
      hreads.spelled, hcloses⟩)

/-- No name that is read ends in front of the opening quote. -/
theorem not_in_front (hne : name ≠ []) {x z c r rest : List Char}
    (hfront : p.opening ++ (p.bridge ++ (p.lead ++ p.name)) = x ++ c) (hc : c ≠ [])
    (hsplit : a.front = z ++ (c ++ r)) (hx : z = [] ∨ x = [])
    (hnext : p.closing ++ p.rest = r ++ a.quote :: rest) : False := by
  obtain ⟨⟨k, t, hk, hcloses⟩, -⟩ := next_cases hpass hreads hahead
  obtain ⟨y, d, hopen, hd, -⟩ := front_last hpass hreads.opening hreads.bridge
  have hlead := mem_of_matches_lead hreads.lead
  have hnamed : p.name ≠ [] := by
    intro hnil
    have hlen := hreads.spelled.length_eq
    rw [hnil] at hlen
    exact hne (List.length_eq_zero_iff.1 hlen)
  have hhead : (r ++ a.quote :: rest).head? = some k := by
    rw [← hnext, hk]
    rfl
  rw [← List.append_assoc] at hsplit
  rcases front_end ha hsplit hhead hcloses with ⟨hkeyword, hbefore⟩ | ⟨e, he, hmark⟩
  · rw [← List.append_assoc, hopen] at hfront
    rcases hx with rfl | rfl
    · -- the name ends with the keyword, as nothing that opens the mention is part of it
      rw [List.nil_append] at hkeyword
      have hsuffix : a.keyword <:+ ((y ++ [d]) ++ p.lead) ++ p.name := by
        rw [List.append_assoc, hfront, hkeyword]
        exact List.suffix_append x a.keyword
      obtain ⟨u, hu⟩ := ha.keyword.suffix_of_lead hd hlead hsuffix
      exact hname.keyword hbefore u (hu ▸ hreads.spelled)
    · have hmem : d ∈ a.keyword := by
        rw [← hkeyword, List.mem_append, ← List.nil_append c, ← hfront]
        simp
      exact (ha.keyword.isLetter d hmem).not_opens hd
  · have hlast : p.name.getLast? = some e := by
      rw [List.getLast?_append_of_ne_nil _ hc, ← List.getLast?_append_of_ne_nil x hc, ← hfront,
        List.getLast?_append_of_ne_nil _ (by simp [hnamed]),
        List.getLast?_append_of_ne_nil _ (by simp [hnamed]),
        List.getLast?_append_of_ne_nil _ hnamed] at he
      exact he
    obtain ⟨e', he', hsame⟩ := hreads.spelled.exists_of_getLast? hlast
    rw [sameFold_comm] at hsame
    obtain ⟨hsign, hblank⟩ := hname.last e' he'
    rcases hmark with rfl | hmark
    · exact hsign (eq_of_sameFold (Or.inl (by decide)) hsame)
    · rw [eq_of_sameFold_blank hmark hsame, hmark] at hblank
      simp at hblank

end

section

variable {a : Attribute} (ha : a.IsQuoted) {name : List Char} (hname : a.Spares name)
  (hne : name ≠ []) {pass : Pass} (hpass : pass ∈ Pass.all)
include ha hname hne hpass

/-- A mention that starts before an attribute ends before it, and none starts in front of its opening
quote. -/
theorem length_le_of_mention {z s x post : List Char} {hit : Hit} (hfront : a.front = z ++ s)
    (hx : z = [] ∨ x = [])
    (hfind : pass.mention? name (x ++ (s ++ a.quote :: (a.value ++ a.quote :: post))) = some hit) :
    hit.length ≤ x.length := by
  obtain ⟨p, htext, rfl, hreads, hahead⟩ := exists_parts hpass hfind
  have hends := (next_cases hpass hreads hahead).2
  have hcut : (p.opening ++ (p.bridge ++ (p.lead ++ p.name))) ++ (p.closing ++ p.rest) =
      (x ++ s) ++ a.quote :: (a.value ++ a.quote :: post) := by
    simpa [Parts.text] using htext
  -- the name ends before the quote
  obtain ⟨r, hxs, hr⟩ : ∃ r, x ++ s = (p.opening ++ (p.bridge ++ (p.lead ++ p.name))) ++ r ∧
      p.closing ++ p.rest = r ++ a.quote :: (a.value ++ a.quote :: post) := by
    rcases List.append_eq_append_iff.1 hcut with h | ⟨r, hr, hrest⟩
    · exact h
    · cases r with
      | nil => exact ⟨[], by simpa using hr.symm, by simpa using hrest.symm⟩
      | cons q r =>
        obtain ⟨rfl, htail⟩ := List.cons.inj hrest
        exact (not_behind_quote ha hname hpass hreads hahead hr htail).elim
  -- and then before the attribute
  obtain ⟨c, hxc, rfl⟩ : ∃ c, x = (p.opening ++ (p.bridge ++ (p.lead ++ p.name))) ++ c ∧
      r = c ++ s := by
    rcases List.append_eq_append_iff.1 hxs with ⟨c, hc, hs⟩ | h
    · cases c with
      | nil => exact ⟨[], by simpa using hc.symm, by simpa using hs.symm⟩
      | cons e c =>
        rw [hs] at hfront
        exact (not_in_front ha hname hpass hreads hahead hne hc (by simp) hfront hx hr).elim
    · exact h
  -- what closes the mention is no letter of the keyword
  have hclosing : ∃ t, c = p.closing ++ t := by
    rcases hx with rfl | rfl
    · obtain ⟨e, w, hkeyword⟩ := List.exists_cons_of_ne_nil ha.keyword.ne_nil
      rw [List.nil_append] at hfront
      rw [← hfront, Attribute.front, hkeyword] at hr
      have hnot : e ∉ p.closing := by
        intro hmem
        have hletter := ha.keyword.isLetter e (by simp [hkeyword])
        rcases hends e hmem with hcloses | rfl
        · simp [hletter.not_closes] at hcloses
        · exact hletter.ne_of_isMark (by decide) rfl
      rw [List.append_assoc] at hr
      obtain ⟨t, ht, -⟩ := of_append_eq_append_mark hr hnot
      exact ⟨t, ht⟩
    · obtain ⟨y, d, hopen, -, -⟩ := front_last hpass hreads.opening hreads.bridge
      rw [← List.append_assoc, hopen] at hxc
      simp at hxc
  obtain ⟨t, rfl⟩ := hclosing
  have hlen := congrArg List.length hxc
  simp only [Parts.hit, List.length_append] at hlen ⊢
  omega

/-- No mention starts in an attribute. -/
theorem mention?_eq_none_of_body {x post : List Char} (hx : x <:+ a.body) (hne' : x ≠ []) :
    pass.mention? name (x ++ a.quote :: post) = none := by
  obtain ⟨y, hy⟩ := hx
  -- what is left of the attribute starts before its opening quote or behind it
  have hcases : (∃ s, a.front = y ++ s ∧ x = s ++ a.quote :: a.value) ∨ ∃ v, a.value = v ++ x := by
    rcases List.append_eq_append_iff.1 hy with h | ⟨v, rfl, hv⟩
    · exact Or.inl h
    · cases v with
      | nil => exact Or.inl ⟨[], by simp, by simpa using hv.symm⟩
      | cons q v => exact Or.inr ⟨v, (List.cons.inj hv).2⟩
  rcases hcases with ⟨s, hfront, rfl⟩ | ⟨v, hvalue⟩
  · cases hfind : pass.mention? name ((s ++ a.quote :: a.value) ++ a.quote :: post) with
    | none => rfl
    | some hit =>
      have hfind' : pass.mention? name ([] ++ (s ++ a.quote :: (a.value ++ a.quote :: post))) =
          some hit := by simpa using hfind
      -- the mention would have to end before the quote that its own front has to reach
      have hle := length_le_of_mention ha hname hne hpass hfront (Or.inr rfl) hfind'
      obtain ⟨p, -, rfl, hreads, -⟩ := exists_parts hpass hfind
      obtain ⟨y, d, hopen, -, -⟩ := front_last hpass hreads.opening hreads.bridge
      have hlen := congrArg List.length hopen
      simp only [Parts.hit, List.length_append, List.length_cons, List.length_nil] at hlen hle
      omega
  · exact mention?_eq_none_of_value hpass ha.quote hname.quote_notMem
      (onlyWhole_of_not_standsIn hname.value) hvalue (ha.opens v x hvalue hne' pass hpass)

/-- A pass writes what stands before the attribute and what comes from its closing quote on, each on
its own, and leaves the attribute. -/
theorem write_body (reference pre post : List Char) : ∃ pre',
    pass.write name reference (pre ++ (a.body ++ a.quote :: post)) =
      pre' ++ (a.body ++ pass.write name reference (a.quote :: post)) := by
  have hseparate : Separate (pass.mention? name) pre (a.body ++ a.quote :: post) := by
    intro x _ _ hit hfind
    rw [Attribute.body, List.append_assoc, List.cons_append] at hfind
    exact length_le_of_mention ha hname hne hpass (List.nil_append a.front).symm (Or.inl rfl) hfind
  obtain ⟨pre', hpre⟩ := write_append reference hseparate
  have hnone : ∀ x, x <:+ a.body → x ≠ [] → pass.mention? name (x ++ a.quote :: post) = none :=
    fun x hx hne' => mention?_eq_none_of_body ha hname hne hpass hx hne'
  refine ⟨pre', ?_⟩
  rw [hpre, write_append_of_none reference hnone]

end

/-! ## All passes and all moved files -/

/-- The step leaves the attribute where it stands, and takes what comes from its closing quote on to
something that starts with the quote. -/
def Attribute.LeftBy (a : Attribute) (step : List Char → List Char) : Prop :=
  ∀ pre post, ∃ pre' post', step (a.quote :: post) = a.quote :: post' ∧
    step (pre ++ (a.body ++ a.quote :: post)) = pre' ++ (a.body ++ a.quote :: post')

theorem Attribute.LeftBy.foldl {a : Attribute} {α : Type} {step : α → List Char → List Char} :
    ∀ {xs : List α}, (∀ x ∈ xs, a.LeftBy (step x)) →
      a.LeftBy fun text => xs.foldl (fun text x => step x text) text
  | [], _ => fun pre post => ⟨pre, post, rfl, rfl⟩
  | x :: xs, h => by
    intro pre post
    obtain ⟨pre', post', hpost, htext⟩ := h x (by simp) pre post
    obtain ⟨pre'', post'', hpost', htext'⟩ :=
      Attribute.LeftBy.foldl (fun y hy => h y (List.mem_cons_of_mem x hy)) pre' post'
    refine ⟨pre'', post'', ?_, ?_⟩
    · simpa [hpost] using hpost'
    · simpa only [List.foldl_cons, htext] using htext'

/-- The update for moved files leaves an attribute that has nothing to do with their former names. -/
theorem leftBy_update {a : Attribute} (ha : a.IsQuoted) {moved : List Moved}
    (hnames : ∀ m ∈ moved, m.oldName.toList ≠ [] ∧ a.Spares m.oldName.toList) (loose : Bool)
    (dir : Path) : a.LeftBy fun text => (update loose moved dir text).text := by
  simp only [text_update]
  refine Attribute.LeftBy.foldl fun m hm => ?_
  obtain ⟨hne, hspares⟩ := hnames m (List.mem_mergeSort.1 hm)
  refine Attribute.LeftBy.foldl fun pass hpass => ?_
  have hall := passes_subset loose pass hpass
  intro pre post
  obtain ⟨pre', htext⟩ := write_body ha hspares hne hall (m.reference dir) pre post
  obtain ⟨post', hpost⟩ := write_quote hall ha.quote m.oldName.toList (m.reference dir) post
  exact ⟨pre', post', hpost, by rw [htext, hpost]⟩

/-! ## Texts woven of attributes -/

/-- A text that is made of attributes, each after what stands before it, and of a rest. -/
def weave : List (List Char × Attribute) → List Char → List Char
  | [], rest => rest
  | (gap, a) :: more, rest => gap ++ (a.text ++ weave more rest)

/-- A woven text that starts with a quote does so before its first attribute. -/
theorem exists_weave_of_cons {q : Char} (hq : IsQuote q) {woven : List (List Char × Attribute)}
    (hwoven : ∀ a ∈ woven.map Prod.snd, Key a.keyword) {rest post : List Char}
    (h : weave woven rest = q :: post) : ∃ woven' rest', post = weave woven' rest' ∧
      woven'.map Prod.snd = woven.map Prod.snd := by
  cases woven with
  | nil => exact ⟨[], post, rfl, rfl⟩
  | cons x more =>
    obtain ⟨gap, a⟩ := x
    cases gap with
    | nil =>
      -- an attribute starts with a letter
      have hkey := hwoven a (by simp)
      obtain ⟨c, w, hkeyword⟩ := List.exists_cons_of_ne_nil hkey.ne_nil
      simp only [weave, Attribute.text, Attribute.body, Attribute.front, hkeyword, List.nil_append,
        List.cons_append, List.cons.injEq] at h
      exact absurd (h.1 ▸ hq) (hkey.noQuote c (by simp [hkeyword]))
    | cons c gap =>
      obtain ⟨-, rfl⟩ := List.cons.inj h
      exact ⟨(gap, a) :: more, rest, rfl, rfl⟩

/-- A step that leaves each of the attributes takes the woven text to one that is woven of the same
attributes in the same order. -/
theorem exists_weave_of_leftBy {step : List Char → List Char} (rest : List Char) :
    ∀ {woven : List (List Char × Attribute)},
      (∀ a ∈ woven.map Prod.snd, a.IsQuoted ∧ a.LeftBy step) → ∀ pre,
      ∃ woven' rest', step (pre ++ weave woven rest) = weave woven' rest' ∧
        woven'.map Prod.snd = woven.map Prod.snd
  | [], _, pre => ⟨[], step (pre ++ rest), rfl, rfl⟩
  | (gap, a) :: more, h, pre => by
    obtain ⟨ha, hleft⟩ := h a (by simp)
    have hmore : ∀ b ∈ more.map Prod.snd, b.IsQuoted ∧ b.LeftBy step :=
      fun b hb => h b (by simp [hb])
    obtain ⟨pre', post', hpost, htext⟩ := hleft (pre ++ gap) (weave more rest)
    -- what comes after the attribute is taken on from its closing quote
    obtain ⟨woven', rest', hweave, hsame⟩ := exists_weave_of_leftBy rest hmore [a.quote]
    rw [List.singleton_append, hpost] at hweave
    have hkeys : ∀ b ∈ woven'.map Prod.snd, Key b.keyword := by
      rw [hsame]
      exact fun b hb => (hmore b hb).1.keyword
    obtain ⟨woven'', rest'', rfl, hsame'⟩ := exists_weave_of_cons ha.quote hkeys hweave.symm
    refine ⟨(pre', a) :: woven'', rest'', ?_, ?_⟩
    · rw [weave, weave, Attribute.text_append, Attribute.text_append, ← List.append_assoc pre, htext]
    · rw [List.map_cons, List.map_cons, hsame', hsame]

/-- Whatever else becomes of a text, the attributes that have nothing to do with the moved files are
found again in the same order. -/
def KeepsAttributes (moved : List Moved) (before after : List Char) : Prop :=
  ∀ woven rest, before = weave woven rest →
    (∀ a ∈ woven.map Prod.snd, a.IsQuoted ∧ ∀ m ∈ moved, a.Spares m.oldName.toList) →
    ∃ woven' rest', after = weave woven' rest' ∧ woven'.map Prod.snd = woven.map Prod.snd

theorem KeepsAttributes.refl (moved : List Moved) (text : List Char) :
    KeepsAttributes moved text text :=
  fun woven rest htext _ => ⟨woven, rest, htext, rfl⟩

theorem KeepsAttributes.trans {moved : List Moved} {s t u : List Char}
    (h : KeepsAttributes moved s t) (h' : KeepsAttributes moved t u) : KeepsAttributes moved s u := by
  intro woven rest htext hwoven
  obtain ⟨woven', rest', htext', hsame⟩ := h woven rest htext hwoven
  obtain ⟨woven'', rest'', htext'', hsame'⟩ := h' woven' rest' htext' (by rwa [hsame])
  exact ⟨woven'', rest'', htext'', hsame'.trans hsame⟩

/-- An update keeps the attributes that have nothing to do with the moved files. -/
theorem keepsAttributes_update {moved : List Moved} (hne : ∀ m ∈ moved, m.oldName.toList ≠ [])
    (loose : Bool) (dir : Path) (text : List Char) :
    KeepsAttributes moved text (update loose moved dir text).text := by
  rintro woven rest rfl hwoven
  have hleft : ∀ a ∈ woven.map Prod.snd,
      a.IsQuoted ∧ a.LeftBy fun text => (update loose moved dir text).text := by
    intro a ha
    obtain ⟨hquoted, hspares⟩ := hwoven a ha
    exact ⟨hquoted, leftBy_update hquoted (fun m hm => ⟨hne m hm, hspares m hm⟩) loose dir⟩
  exact exists_weave_of_leftBy rest hleft []

end SiteFolders.Reference
