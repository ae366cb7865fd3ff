import SiteFolders.Proofs.Reference.Cut
import SiteFolders.Proofs.Reference.Openings

/-!
# Attributes

What one pass for one file does to an attribute `href="…"` or `src="…"` in a text
(`write_attribute`): what stands before the attribute and what follows its value are written on
their own, and the value either stays or becomes the reference. For this no mention may reach into
the attribute or out of it (`separate_attribute`), and in the quoted value the name may only be read
as the whole of it (`OnlyWhole`).
-/

namespace SiteFolders.Reference

open SiteFolders.Text Regex

/-! ## Texts with a mark in them -/

theorem of_append_eq_append_quote {u v w s : List Char} {d q : Char}
    (h : u ++ d :: v = w ++ q :: s) (hu : NoQuote u) (hd : Opens d) (hw : ∀ c ∈ w, ¬ Opens c)
    (hq : IsQuote q) : u = w ∧ d = q ∧ v = s := by
  rcases List.append_eq_append_iff.1 h with ⟨t, rfl, ht⟩ | ⟨t, rfl, ht⟩
  · cases t with
    | nil =>
      rcases List.cons.inj ht with ⟨rfl, rfl⟩
      exact ⟨by simp, rfl, rfl⟩
    | cons c t =>
      rcases List.cons.inj ht with ⟨rfl, -⟩
      exact absurd hd (hw d (by simp))
  · cases t with
    | nil =>
      rcases List.cons.inj ht with ⟨rfl, rfl⟩
      exact ⟨by simp, rfl, rfl⟩
    | cons c t =>
      rcases List.cons.inj ht with ⟨rfl, -⟩
      exact absurd hq (hu q (by simp))

theorem of_append_eq_append_mark {u v w s : List Char} {q : Char} (h : u ++ v = w ++ q :: s)
    (hu : q ∉ u) : ∃ t, w = u ++ t ∧ v = t ++ q :: s := by
  rcases List.append_eq_append_iff.1 h with ⟨t, hw, hv⟩ | ⟨t, rfl, ht⟩
  · exact ⟨t, hw, hv⟩
  · cases t with
    | nil => exact ⟨[], by simp, ht.symm⟩
    | cons c t =>
      rcases List.cons.inj ht with ⟨rfl, -⟩
      exact absurd (by simp) hu

/-! ## Reading a name in a value -/

/-- Some pass can read the name in a text: after `before` there is what opens a mention for the
pass, the leading segments and the name, and then what closes a mention, with `after` left. -/
def ReadsAt (name text before after : List Char) : Prop :=
  ∃ pass ∈ Pass.all, ∃ o b ld m c, text = before ++ (o ++ (b ++ (ld ++ (m ++ c :: after)))) ∧
    Matches pass.opening o ∧ Matches pass.bridge b ∧ Matches lead ld ∧
    Matches (pass.nameRegex name) m ∧ closesLoose c = true

/-- The name can be read in any letter case at the start of a quoted value, as it is where a
keyword stands before it, with `after` left. -/
def ReadsFirst (name quoted after : List Char) : Prop :=
  ∃ q ld m c, quoted = q :: (ld ++ (m ++ c :: after)) ∧ Matches lead ld ∧ Spelled name m ∧
    closesLoose c = true

/-- The name can be read somewhere in a quoted value. -/
def StandsIn (name quoted : List Char) : Prop :=
  (∃ before after, ReadsAt name quoted before after) ∨ ∃ after, ReadsFirst name quoted after

/-- Wherever the name can be read in a quoted value, it is read as the whole of it. -/
def OnlyWhole (name quoted : List Char) : Prop :=
  (∀ before after, ReadsAt name quoted before after → before = [] ∧ after = []) ∧
    ∀ after, ReadsFirst name quoted after → after = []

theorem onlyWhole_of_not_standsIn {name quoted : List Char} (h : ¬ StandsIn name quoted) :
    OnlyWhole name quoted :=
  ⟨fun before after hat => absurd (Or.inl ⟨before, after, hat⟩) h,
    fun after hfirst => absurd (Or.inr ⟨after, hfirst⟩) h⟩

/-- A value that its quotes hold: the closing one is not part of anything that opens a mention. -/
structure IsValue (q : Char) (value : List Char) : Prop where
  quote_notMem : q ∉ value
  last : ∀ c ∈ value.getLast?, c ≠ '=' ∧ c ≠ '(' ∧ isBlank c = false

instance (q : Char) (value : List Char) : Decidable (IsValue q value) :=
  letI : Decidable (∀ c ∈ value.getLast?, c ≠ '=' ∧ c ≠ '(' ∧ isBlank c = false) :=
    Option.decidableForallMem _
  decidable_of_iff (q ∉ value ∧ ∀ c ∈ value.getLast?, c ≠ '=' ∧ c ≠ '(' ∧ isBlank c = false)
    ⟨fun h => ⟨h.1, h.2⟩, fun h => ⟨h.1, h.2⟩⟩

/-- A name that no attribute starts in. -/
structure Apart (q : Char) (name : List Char) : Prop where
  quote_notMem : q ∉ name
  last : name.getLast? ≠ some '='

instance (q : Char) (name : List Char) : Decidable (Apart q name) :=
  decidable_of_iff (q ∉ name ∧ name.getLast? ≠ some '=') ⟨fun h => ⟨h.1, h.2⟩, fun h => ⟨h.1, h.2⟩⟩

section

variable {q : Char} {kw : List Char} (hkey : Key kw) (hq : IsQuote q)
include hkey

theorem Key.not_opens_of_mem {c : Char} (hc : c ∈ kw ++ ['=']) : ¬ Opens c := by
  rcases List.mem_append.1 hc with hc | hc
  · exact (hkey.isLetter c hc).not_opens
  · rw [List.mem_singleton.1 hc]
    decide

theorem Key.not_ends_of_mem {c : Char} (hc : c ∈ kw ++ ['=']) : ¬ Ends c := by
  rcases List.mem_append.1 hc with hc | hc
  · rintro (h | rfl)
    · simp [(hkey.isLetter c hc).not_closes] at h
    · exact (hkey.isLetter ';' hc).ne_of_isMark (by decide) rfl
  · rw [List.mem_singleton.1 hc]
    rintro (h | h) <;> simp_all +decide

theorem Key.notMem_of_mark {c : Char} (hc : c.toNat < 0x41) : c ∉ kw :=
  fun hmem => (hkey.isLetter c hmem).ne_of_isMark hc rfl

end

/-! ## Where the front of a mention ends -/

/-- What stands before the leading segments of a mention ends in a character that opens it, and
has no quote before that. -/
theorem front_last {pass : Pass} (hpass : pass ∈ Pass.all) {o br : List Char}
    (ho : Matches pass.opening o) (hbr : Matches pass.bridge br) :
    ∃ y d, o ++ br = y ++ [d] ∧ Opens d ∧ NoQuote y := by
  rcases front_cases hpass ho hbr with ⟨-, hb, d, hd, ho⟩ | ⟨-, hb, hfront⟩ | hfront
  · exact ⟨[], d, by rw [ho, hb]; rfl, hd, by simp [NoQuote]⟩
  · rcases hfront with ⟨w, b, b', q, hw, hblank, hblank', hq, ho⟩
    refine ⟨w ++ (b ++ '=' :: b'), q, by rw [ho, hb]; simp, Or.inl hq, ?_⟩
    exact hw.noQuote.append (hblank.noQuote.append (hblank'.noQuote.cons (by decide)))
  · rcases hfront with ⟨y, d, ho, -, hd, hy, -⟩
    exact ⟨y, d, ho, hd, hy⟩

/-- One keyword of an attribute is not the end of a longer one. -/
theorem Key.eq_nil_of_append {x kw : List Char} (hw : Key (x ++ kw)) (hkey : Key kw) :
    x = [] := by
  have hhref : "href".toList.length = 4 := rfl
  have hsrc : "src".toList.length = 3 := rfl
  have hlen := @List.length_append _ x kw
  rcases hw with hw | hw <;> rcases hkey with hk | hk
  case inl.inr =>
    -- the longer keyword goes on with another letter than the shorter one starts with
    have hone : x.length = 1 := by
      have hlen' := hw.length_eq
      have hlen'' := hk.length_eq
      omega
    rcases List.length_eq_one_iff.1 hone with ⟨c, rfl⟩
    rcases List.forall₂_cons.1 hw with ⟨-, hw⟩
    cases hk with
    | cons hs _ =>
      cases hw with
      | cons hr _ =>
        rw [sameFold, beq_iff_eq] at hs hr
        exact absurd (hs.trans hr.symm) (by decide)
  all_goals
    have hlen' := hw.length_eq
    have hlen'' := hk.length_eq
    rw [← List.length_eq_zero_iff]
    omega

/-- A keyword and blanks in front of the sign are the keyword of the attribute if they end where
the attribute's keyword ends. -/
theorem eq_of_append_key {w b b' x kw : List Char} (hkey : Key kw) (hw : Key w)
    (hb : AllBlank b) (hb' : AllBlank b') (h : w ++ (b ++ '=' :: b') = x ++ (kw ++ ['='])) :
    w = x ++ kw ∧ b = [] ∧ b' = [] := by
  have hsign : '=' ∉ w ++ b := by
    intro hc
    rcases List.mem_append.1 hc with hc | hc
    · exact hw.notMem_of_mark (by decide) hc
    · exact absurd (hb '=' hc) (by decide)
  have hcut : (w ++ b) ++ '=' :: b' = (x ++ kw) ++ '=' :: [] := by simpa using h
  rcases of_append_eq_append_mark hcut hsign with ⟨t, ht, htail⟩
  obtain rfl : t = [] := by
    cases t with
    | nil => rfl
    | cons c t =>
      rcases List.cons.inj htail with ⟨-, rfl⟩
      have hmem : '=' ∈ t ++ ['='] := by simp
      exact absurd (hb' _ hmem) (by decide)
  rw [List.append_nil] at ht
  -- the last character is a letter, so no blank comes after the keyword
  obtain rfl : b = [] := by
    by_contra hne
    have hlast := congrArg List.getLast? ht
    rw [List.getLast?_append_of_ne_nil _ hkey.ne_nil, List.getLast?_append_of_ne_nil _ hne,
      List.getLast?_eq_some_getLast hne] at hlast
    have hletter := (hkey.isLetter _ (List.mem_of_getLast? hlast)).not_isBlank
    rw [hb _ (List.getLast_mem hne)] at hletter
    simp at hletter
  exact ⟨by simpa using ht.symm, rfl, (List.cons.inj htail).2⟩

/-- A quote at the end of a front comes after a sign, a parenthesis or a blank. -/
theorem front_quote_last {pass : Pass} (hpass : pass ∈ Pass.all) {o br : List Char}
    (hopening : Matches pass.opening o) (hbridge : Matches pass.bridge br) {x : List Char} {q : Char}
    (hq : IsQuote q) (hx : x ≠ []) (hfront : o ++ br = x ++ [q]) :
    ∃ e, x.getLast? = some e ∧ (e = '=' ∨ e = '(' ∨ isBlank e = true) := by
  rcases front_cases hpass hopening hbridge with ⟨-, hb, d, -, ho⟩ |
    ⟨-, hb, w, b, b', q', -, -, hblank', -, ho⟩ | ⟨y, d, ho, -, -, -, hlast⟩
  · have hlen := congrArg List.length hfront
    rw [ho, hb] at hlen
    simp only [List.length_append, List.length_cons, List.length_nil] at hlen
    exact absurd (List.length_eq_zero_iff.1 (by omega)) hx
  · have hassoc : w ++ (b ++ '=' :: (b' ++ [q'])) = w ++ (b ++ '=' :: b') ++ [q'] := by simp
    rw [ho, hb, List.append_nil, hassoc] at hfront
    rw [← List.append_inj_left' hfront rfl, List.getLast?_append_of_ne_nil _ (by simp),
      List.getLast?_append_of_ne_nil _ (by simp), List.getLast?_cons]
    cases hlast : b'.getLast? with
    | none => exact ⟨'=', rfl, Or.inl rfl⟩
    | some e => exact ⟨e, rfl, Or.inr (Or.inr (hblank' e (List.mem_of_getLast? hlast)))⟩
  · rcases List.append_inj' (hfront.symm.trans ho) rfl with ⟨rfl, hd⟩
    obtain rfl : q = d := by simpa using hd
    rcases hlast hq with ⟨e, he, hopens⟩
    exact ⟨e, he, Or.inr hopens⟩

/-- Nothing that opens a mention ends in the closing quote of a value. -/
theorem IsValue.front_ne {q : Char} {value : List Char} (hvalue : IsValue q value) (hq : IsQuote q)
    {v x : List Char} (hv : value = v ++ x) (hx : x ≠ []) {pass : Pass} (hpass : pass ∈ Pass.all)
    {o br : List Char} (ho : Matches pass.opening o) (hbr : Matches pass.bridge br) :
    o ++ br ≠ x ++ [q] := by
  intro hfront
  rcases front_quote_last hpass ho hbr hq hx hfront with ⟨e, he, hopens⟩
  obtain ⟨hsign, hparen, hblank⟩ := hvalue.last e (by
    rw [hv, List.getLast?_append_of_ne_nil _ hx, he]
    rfl)
  rcases hopens with hopens | hopens | hopens
  · exact hsign hopens
  · exact hparen hopens
  · simp [hblank] at hopens

/-- The front of a mention that ends in the opening quote of an attribute starts inside the
attribute. -/
theorem front_ne {pass : Pass} (hpass : pass ∈ Pass.all) {name : List Char} {p : Parts}
    (h : Reads pass name p) {x kw : List Char} {q : Char} (hkey : Key kw) (hq : IsQuote q)
    (hx : x ≠ []) : p.opening ++ p.bridge ≠ x ++ (kw ++ ['=']) ++ [q] := by
  intro heq
  rcases front_cases hpass h.opening h.bridge with ⟨-, hb, d, hd, ho⟩ | ⟨-, hb, hfront⟩ | hfront
  · have hlen := congrArg List.length heq
    rw [ho, hb] at hlen
    simp only [List.length_append, List.length_cons, List.length_nil] at hlen
    omega
  · rcases hfront with ⟨w, b, b', q', hw, hblank, hblank', -, ho⟩
    have hassoc : w ++ (b ++ '=' :: (b' ++ [q'])) = w ++ (b ++ '=' :: b') ++ [q'] := by simp
    rw [ho, hb, List.append_nil, hassoc] at heq
    rcases eq_of_append_key hkey hw hblank hblank' (List.append_inj_left' heq rfl) with ⟨rfl, -, -⟩
    exact hx (hw.eq_nil_of_append hkey)
  · rcases hfront with ⟨y, d, ho, -, -, -, hlast⟩
    rcases List.append_inj' (heq.symm.trans ho) rfl with ⟨rfl, hd⟩
    obtain rfl : q = d := by simpa using hd
    rcases hlast hq with ⟨e, he, hblank⟩
    rw [← List.append_assoc, List.getLast?_append_of_ne_nil _ (by simp)] at he
    obtain rfl : '=' = e := by simpa using he
    exact absurd hblank (by decide)

/-! ## Mentions in front of an attribute -/

/-- A name does not end inside the start of an attribute: not with the sign, and not where a letter
or the sign would have to close the mention. -/
theorem name_ne {name kw rest u n v : List Char} {q k : Char} (hkey : Key kw) (hname : Apart q name)
    (hspelled : Spelled name (u ++ n)) (hn : n ≠ []) (h : n ++ v = (kw ++ ['=']) ++ q :: rest)
    (hq : IsQuote q) (hnext : v.head? = some k) (hcloses : closesLoose k = true) : False := by
  have hqn : q ∉ n := fun hmem => hname.quote_notMem
    ((hspelled.mem_iff (Or.inl hq.isMark)).1 (List.mem_append_right _ hmem))
  rcases of_append_eq_append_mark h hqn with ⟨r, hr, rfl⟩
  cases r with
  | nil =>
    refine hname.last ((hspelled.getLast?_eq_iff (Or.inl (by decide))).1 ?_)
    rw [List.append_nil] at hr
    rw [List.getLast?_append_of_ne_nil _ hn, ← hr]
    simp
  | cons c r =>
    obtain rfl : c = k := by simpa using hnext
    exact hkey.not_ends_of_mem (by rw [hr]; simp) (Or.inl hcloses)

/-- No mention that starts before an attribute reaches into it. -/
theorem separate_attribute {pass : Pass} (hpass : pass ∈ Pass.all) {name kw : List Char}
    {q : Char} (hkey : Key kw) (hq : IsQuote q) (hname : Apart q name) (pre rest : List Char) :
    Separate (pass.mention? name) pre ((kw ++ ['=']) ++ q :: rest) := by
  intro x _ hx hit hfind
  rcases exists_parts hpass hfind with ⟨p, htext, rfl, hreads, hahead⟩
  rcases front_last hpass hreads.opening hreads.bridge with ⟨y, d, hfront, hd, hy⟩
  rcases next_cases hpass hreads hahead with ⟨⟨k, t, hnext, hcloses⟩, hends⟩
  have hlead := mem_of_matches_lead hreads.lead
  obtain ⟨c, w, hw⟩ : ∃ c w, kw ++ ['='] = c :: w :=
    List.exists_cons_of_ne_nil (List.append_ne_nil_of_right_ne_nil _ (by simp))
  have hc : c ∈ kw := by
    rcases List.exists_cons_of_ne_nil hkey.ne_nil with ⟨c', kw', rfl⟩
    rcases List.cons.inj hw with ⟨rfl, -⟩
    exact List.mem_cons_self
  have hletter := hkey.isLetter c hc
  rw [Parts.text, ← List.append_assoc, hfront, List.append_assoc] at htext
  -- the parts one after another end before the keyword
  rcases List.append_eq_append_iff.1 htext with ⟨t, rfl, ht⟩ | ⟨t, rfl, ht⟩
  · rw [hw] at ht
    obtain ⟨t₁, rfl, ht₁⟩ := of_append_eq_append_mark ht
      (by rintro h; obtain rfl := List.mem_singleton.1 h; exact hletter.not_opens hd)
    obtain ⟨t₂, rfl, ht₂⟩ := of_append_eq_append_mark ht₁ (fun h => by
      rcases hlead c h with rfl | rfl <;> exact hletter.ne_of_isMark (by decide) rfl)
    have hname' : ∃ t₃, t₂ = p.name ++ t₃ ∧ p.closing ++ p.rest = t₃ ++ c :: (w ++ q :: rest) := by
      rcases List.append_eq_append_iff.1 ht₂ with ⟨t₃, rfl, ht₃⟩ | ⟨n, hn, ht₃⟩
      · exact ⟨t₃, rfl, ht₃⟩
      · obtain rfl | hne := eq_or_ne n []
        · exact ⟨[], by simpa using hn.symm, by simpa using ht₃.symm⟩
        · exact (name_ne hkey hname (hn ▸ hreads.spelled) hne (by rw [hw]; exact ht₃.symm) hq
            (by rw [hnext]; rfl) hcloses).elim
    rcases hname' with ⟨t₃, rfl, ht₃⟩
    obtain ⟨t₄, rfl, ht₄⟩ := of_append_eq_append_mark ht₃ (fun h => by
      exact hkey.not_ends_of_mem (List.mem_append_left _ hc) (hends c h))
    have hlen := congrArg List.length hfront
    simp only [Parts.hit, List.length_append, List.length_cons, List.length_nil] at hlen ⊢
    omega
  · -- a front that reaches into the attribute is one that starts there
    have hopen : t ++ d :: (p.lead ++ (p.name ++ (p.closing ++ p.rest))) =
        (kw ++ ['=']) ++ q :: rest := ht.symm
    obtain ⟨rfl, rfl, -⟩ := of_append_eq_append_quote hopen
      (fun c hc => hy c (List.mem_append_right _ hc)) hd (fun c => hkey.not_opens_of_mem) hq
    exact absurd hfront (front_ne hpass hreads hkey hq hx)

/-! ## Mentions in an attribute -/

/-- A mention that starts in an attribute is its value: it takes the opening quote and what stands
before it in the attribute, and the closing quote only where a keyword opens it. -/
structure TakesValue (pass : Pass) (name value : List Char) (q : Char) (s : List Char)
    (hit : Hit) : Prop where
  value_eq : ∃ ld m, value = ld ++ m ∧ Matches lead ld ∧ Spelled name m
  style : pass.style = .delimited
  opening : hit.opening = s ++ [q]
  closing : hit.closing = [] ∧ hit.length = (s ++ q :: value).length ∨
    (pass = .href ∨ pass = .src) ∧ hit.closing = [q] ∧
      hit.length = (s ++ q :: value).length + 1

theorem readsAt_of_parts {pass : Pass} (hpass : pass ∈ Pass.all) {name : List Char} {p : Parts}
    (h : Reads pass name p) (before after : List Char) {c : Char} (hc : closesLoose c = true) :
    ReadsAt name (before ++ (p.opening ++ (p.bridge ++ (p.lead ++ (p.name ++ c :: after))))) before
      after :=
  ⟨pass, hpass, _, _, _, _, c, rfl, h.opening, h.bridge, h.lead, h.name, hc⟩

/-- What follows the opening of a mention in a quoted value is the name up to a closing. -/
theorem exists_after {pass : Pass} {name v post t : List Char} {q k : Char} {p : Parts}
    (hq : IsQuote q) (hname : q ∉ name) (hreads : Reads pass name p)
    (hnext : p.closing ++ p.rest = k :: t)
    (h : p.lead ++ (p.name ++ (p.closing ++ p.rest)) = v ++ q :: post) :
    ∃ after, v ++ [q] = p.lead ++ (p.name ++ k :: after) ∧
      (after = [] → v = p.lead ++ p.name ∧ p.closing ++ p.rest = q :: post) := by
  have hqlead : q ∉ p.lead := by
    intro hmem
    rcases mem_of_matches_lead hreads.lead q hmem with rfl | rfl <;> exact absurd hq (by decide)
  have hqname : q ∉ p.name := fun hmem =>
    hname ((hreads.spelled.mem_iff (Or.inl hq.isMark)).1 hmem)
  rcases of_append_eq_append_mark h hqlead with ⟨t₁, rfl, h₁⟩
  rcases of_append_eq_append_mark h₁ hqname with ⟨t₂, rfl, h₂⟩
  rw [hnext] at h₂
  cases t₂ with
  | nil =>
    rcases List.cons.inj h₂ with ⟨rfl, -⟩
    exact ⟨[], by simp, fun _ => ⟨by simp, by rw [hnext, h₂]; rfl⟩⟩
  | cons c t₂ =>
    rcases List.cons.inj h₂ with ⟨rfl, -⟩
    exact ⟨t₂ ++ [q], by simp, by simp⟩

section

variable {pass : Pass} (hpass : pass ∈ Pass.all) {name value post : List Char} {q : Char}
  (hq : IsQuote q) (hname : q ∉ name) (honly : OnlyWhole name (q :: (value ++ [q])))
include hpass hq hname honly

/-- No mention starts within the value. -/
theorem mention?_eq_none_of_value {v x : List Char} (hv : value = v ++ x)
    (hopens : ∀ o br, Matches pass.opening o → Matches pass.bridge br → o ++ br ≠ x ++ [q]) :
    pass.mention? name (x ++ q :: post) = none := by
  by_contra hsome
  rcases Option.ne_none_iff_exists'.1 hsome with ⟨hit, hfind⟩
  rcases exists_parts hpass hfind with ⟨p, htext, rfl, hreads, hahead⟩
  rcases next_cases hpass hreads hahead with ⟨⟨k, t, hnext, hcloses⟩, -⟩
  rcases front_last hpass hreads.opening hreads.bridge with ⟨y, d, hfront, hd, hy⟩
  -- the quote of the value does not itself open a mention
  have hquote : x ≠ y ∨ q ≠ d := by
    by_contra heq
    obtain ⟨rfl, rfl⟩ : x = y ∧ q = d := by simpa [not_or] using heq
    exact hopens _ _ hreads.opening hreads.bridge hfront
  rw [Parts.text, ← List.append_assoc, hfront, List.append_assoc] at htext
  -- what opens the mention ends before the quote of the value or behind it
  rcases List.append_eq_append_iff.1 htext with ⟨t, hxt, ht⟩ | ⟨t, hyt, ht⟩
  · cases t with
    | nil => rcases hquote with h | h <;> simp_all
    | cons c t =>
      rcases List.cons.inj ht with ⟨rfl, htail⟩
      rcases exists_after hq hname hreads hnext htail with ⟨after, hafter, -⟩
      -- before it: the quoted value would hold a mention that does not start with it
      have hreadsAt := readsAt_of_parts hpass hreads (q :: v) after hcloses
      have htext : (q :: v) ++ (p.opening ++ (p.bridge ++ (p.lead ++ (p.name ++ k :: after)))) =
          q :: (value ++ [q]) := by
        rw [← hafter, ← List.append_assoc p.opening, hfront, hv, hxt]
        simp
      rw [htext] at hreadsAt
      exact absurd (honly.1 _ _ hreadsAt).1 (by simp)
  · cases t with
    | nil => rcases hquote with h | h <;> simp_all
    | cons c t =>
      rcases List.cons.inj ht with ⟨rfl, -⟩
      -- behind it: before its last character, what opens a mention has no quote
      exact hy q (by rw [hyt]; simp) hq

/-- A mention that starts at the opening quote or before it in the attribute is the value. -/
theorem takesValue_of_mention {kw u s : List Char} {hit : Hit} (hkey : Key kw)
    (hs : kw ++ ['='] = u ++ s)
    (hfind : pass.mention? name (s ++ q :: (value ++ q :: post)) = some hit) :
    TakesValue pass name value q s hit := by
  rcases exists_parts hpass hfind with ⟨p, htext, rfl, hreads, hahead⟩
  rcases next_cases hpass hreads hahead with ⟨⟨k, t, hnext, hcloses⟩, -⟩
  rcases front_last hpass hreads.opening hreads.bridge with ⟨y, d, hfront, hd, hy⟩
  have hsopens : ∀ c ∈ s, ¬ Opens c := fun c hc =>
    hkey.not_opens_of_mem (by rw [hs]; exact List.mem_append_right _ hc)
  rw [Parts.text, ← List.append_assoc, hfront, List.append_assoc] at htext
  rcases of_append_eq_append_quote htext hy hd hsopens hq with ⟨rfl, rfl, hrest⟩
  rcases exists_after hq hname hreads hnext hrest with ⟨after, hafter, hwhole⟩
  have hfirst : ReadsFirst name (d :: (value ++ [d])) after :=
    ⟨d, p.lead, p.name, k, by rw [hafter], hreads.lead, hreads.spelled, hcloses⟩
  rcases hwhole (honly.2 _ hfirst) with ⟨hval, hclosing⟩
  have hlen : (p.opening ++ p.bridge).length = y.length + 1 := by rw [hfront]; simp
  have hlength : p.opening.length + p.bridge.length + p.lead.length + p.name.length =
      (y ++ d :: value).length := by
    simp only [hval, List.length_append, List.length_cons] at hlen ⊢
    omega
  have hvalue_eq : ∃ ld m, value = ld ++ m ∧ Matches lead ld ∧ Spelled name m :=
    ⟨_, _, hval, hreads.lead, hreads.spelled⟩
  rcases front_cases hpass hreads.opening hreads.bridge with ⟨rfl, hb, -⟩ | ⟨hkeyed, hb, -⟩ | hfronts
  · have hnil : p.closing = [] := matches_empty_iff.1 hreads.closing
    rw [hb, List.append_nil] at hfront
    refine ⟨hvalue_eq, rfl, hfront, Or.inl ⟨rfl, ?_⟩⟩
    simp only [Parts.hit, hnil, List.length_nil]
    omega
  · rw [hb, List.append_nil] at hfront
    have hquote : Matches quote p.closing := by
      rcases hkeyed with rfl | rfl <;> exact hreads.closing
    rcases matches_quote_iff.1 hquote with ⟨q', hq', -⟩
    rw [hq'] at hclosing
    obtain rfl : q' = d := (List.cons.inj hclosing).1
    refine ⟨hvalue_eq, ?_, hfront, Or.inr ⟨hkeyed, ?_, ?_⟩⟩
    · rcases hkeyed with rfl | rfl <;> rfl
    · rcases hkeyed with rfl | rfl <;> exact hq'
    · simp only [Parts.hit, hq', List.length_singleton]
      omega
  · -- the sign is no parenthesis and no blank, and a front of this kind does not start here
    rcases hfronts with ⟨x, d', hx, hne, -, -, hlast⟩
    rcases List.append_inj' (hfront.symm.trans hx) rfl with ⟨rfl, hd'⟩
    obtain rfl : d = d' := by simpa using hd'
    rcases hlast hq with ⟨e, he, hopens⟩
    have hsign := congrArg List.getLast? hs
    rw [List.getLast?_append_of_ne_nil _ hne, he, List.getLast?_append_of_ne_nil _ (by simp)] at hsign
    obtain rfl : '=' = e := by simpa using hsign
    exact absurd hopens (by decide)

/-- A mention that is found where an attribute starts is the value, or it comes later. -/
theorem mention_cases {kw u x : List Char} {hit : Hit} (hkey : Key kw) (hvalue : IsValue q value)
    (hx : x ≠ []) (hux : (kw ++ ['=']) ++ q :: value = u ++ x)
    (hfind : pass.mention? name (x ++ q :: post) = some hit) :
    ∃ s, x = s ++ q :: value ∧ kw ++ ['='] = u ++ s ∧ TakesValue pass name value q s hit := by
  rcases List.append_eq_append_iff.1 hux with ⟨t, rfl, ht⟩ | ⟨s, hs, rfl⟩
  · cases t with
    | nil =>
      rw [List.nil_append] at ht
      subst ht
      have hs : kw ++ ['='] = (kw ++ ['=']) ++ [] := (List.append_nil _).symm
      exact ⟨[], rfl, by simp, takesValue_of_mention hpass hq hname honly hkey hs
        (by simpa using hfind)⟩
    | cons c t =>
      rcases List.cons.inj ht with ⟨rfl, hv⟩
      rw [mention?_eq_none_of_value hpass hq hname honly hv fun _ _ ho hbr =>
        hvalue.front_ne hq hv hx hpass ho hbr] at hfind
      simp at hfind
  · exact ⟨s, rfl, hs, takesValue_of_mention hpass hq hname honly hkey hs (by simpa using hfind)⟩

end

/-! ## Writing an attribute -/

/-- Only the loose pass finds a mention at a quote. -/
theorem eq_loose_of_mention {pass : Pass} (hpass : pass ∈ Pass.all) {name post : List Char}
    {q : Char} {p : Parts} (hq : IsQuote q) (hreads : Reads pass name p)
    (htext : p.text = q :: post) : pass = .loose ∧ p.opening = [q] := by
  rw [Parts.text, ← List.append_assoc] at htext
  rcases front_cases hpass hreads.opening hreads.bridge with ⟨rfl, -, d, -, ho⟩ |
    ⟨-, -, w, b, b', q', hw, -, -, -, ho⟩ | ⟨x, d, ho, hne, -, hx, -⟩
  · rw [ho] at htext ⊢
    obtain rfl : d = q := (List.cons.inj htext).1
    exact ⟨rfl, rfl⟩
  · rcases List.exists_cons_of_ne_nil hw.ne_nil with ⟨k, w, rfl⟩
    rw [ho] at htext
    obtain rfl : k = q := (List.cons.inj htext).1
    exact absurd hq (hw.noQuote k (by simp))
  · rcases List.exists_cons_of_ne_nil hne with ⟨c, x, rfl⟩
    rw [ho] at htext
    obtain rfl : c = q := (List.cons.inj htext).1
    exact absurd hq (hx c (by simp))

/-- A text that starts with a quote still does so after a pass. -/
theorem write_quote {pass : Pass} (hpass : pass ∈ Pass.all) {q : Char} (hq : IsQuote q)
    (name reference post : List Char) :
    ∃ post', pass.write name reference (q :: post) = q :: post' := by
  cases hfind : pass.mention? name (q :: post) with
  | none => exact ⟨_, by rw [Pass.write, cut_of_none hfind]; rfl⟩
  | some hit =>
    rcases exists_parts hpass hfind with ⟨p, htext, rfl, hreads, -⟩
    rcases eq_loose_of_mention hpass hq hreads htext with ⟨rfl, ho⟩
    rw [Pass.write, cut_of_some hfind, List.flatMap_cons]
    exact ⟨_, by simp only [Piece.write, Pass.loose, Style.render, Parts.hit, ho]; rfl⟩

/-- The passes for attributes find no mention at a quote. -/
theorem write_quote_of_keyed {pass : Pass} (hkeyed : pass = .href ∨ pass = .src) {q : Char}
    (hq : IsQuote q) (name reference post : List Char) :
    pass.write name reference (q :: post) = q :: pass.write name reference post := by
  have hpass : pass ∈ Pass.all := by rcases hkeyed with rfl | rfl <;> simp [Pass.all]
  cases hfind : pass.mention? name (q :: post) with
  | none => rw [Pass.write, cut_of_none hfind]; rfl
  | some hit =>
    rcases exists_parts hpass hfind with ⟨p, htext, rfl, hreads, -⟩
    rcases eq_loose_of_mention hpass hq hreads htext with ⟨hloose, -⟩
    have hname := congrArg Pass.name hloose
    rcases hkeyed with rfl | rfl <;> exact absurd hname (by decide)

/-- A mention that is the value is written as the reference, between the same quotes. -/
theorem write_value {pass : Pass} {name reference value post s : List Char} {q : Char} {hit : Hit}
    (hq : IsQuote q) (htakes : TakesValue pass name value q s hit)
    (hfind : pass.mention? name ((s ++ q :: value) ++ q :: post) = some hit) :
    pass.write name reference ((s ++ q :: value) ++ q :: post) =
      s ++ q :: (reference ++ pass.write name reference (q :: post)) := by
  have hpos : 0 < hit.length := by
    rcases htakes.closing with ⟨-, hlen⟩ | ⟨-, -, hlen⟩
    all_goals
      simp only [List.length_append, List.length_cons] at hlen
      omega
  rw [Pass.write, cut_of_find (by simp) hpos hfind, List.flatMap_cons]
  simp only [Piece.write, htakes.style, Style.render, htakes.opening]
  rcases htakes.closing with ⟨hclosing, hlen⟩ | ⟨hkeyed, hclosing, hlen⟩
  · rw [hclosing, hlen, List.drop_left]
    simp [Pass.write, htakes.style]
  · rw [write_quote_of_keyed hkeyed hq, hclosing, hlen, ← List.drop_drop, List.drop_left]
    simp [Pass.write, htakes.style]

/-- A text with an attribute in it, cut at the attribute. -/
def withAttribute (pre kw : List Char) (q : Char) (value rest : List Char) : List Char :=
  pre ++ ((kw ++ ['=']) ++ q :: (value ++ rest))

/-- A pass for attributes with the keyword. -/
def Pass.IsFor (pass : Pass) (kw : List Char) : Prop :=
  pass = .href ∧ Spelled "href".toList kw ∨ pass = .src ∧ Spelled "src".toList kw

/-- The pass for the keyword of an attribute finds the value if that is the name after leading
segments. -/
theorem mention?_ne_none_of_isFor {pass : Pass} {name kw ld m post : List Char} {q : Char}
    (hfor : pass.IsFor kw) (hq : IsQuote q) (hld : Matches lead ld) (hm : Spelled name m) :
    pass.mention? name ((kw ++ ['=']) ++ q :: ((ld ++ m) ++ q :: post)) ≠ none := by
  have hquote : Matches quote [q] := matches_quote_iff.2 ⟨q, rfl, hq⟩
  have hopening : ∀ {w : String}, Spelled w.toList kw →
      Matches (.concat [word w, blanks, mark '=', blanks, quote]) (kw ++ ['=', q]) := by
    intro w hw
    simp only [concat, List.foldl, matches_seq_iff, matches_word_iff, matches_mark_iff,
      matches_blanks_iff]
    exact ⟨kw ++ ['='], [q], by simp, ⟨kw ++ ['='], [], by simp, ⟨kw, ['='], rfl,
      ⟨kw, [], by simp, hw, by simp [AllBlank]⟩, rfl⟩, by simp [AllBlank]⟩, hquote⟩
  have hname : Matches (literal sameFold name) m := matches_literal_iff.2 hm
  have hsome : (pass.mention? name
      (Parts.text ⟨kw ++ ['=', q], [], ld, m, [q], post⟩)).isSome = true := by
    rcases hfor with ⟨rfl, hw⟩ | ⟨rfl, hw⟩
    · exact mention?_isSome (by simp [Pass.all]) rfl
        ⟨hopening hw, matches_empty_iff.2 rfl, hld, hname, hquote⟩
    · exact mention?_isSome (by simp [Pass.all]) rfl
        ⟨hopening hw, matches_empty_iff.2 rfl, hld, hname, hquote⟩
  intro hnone
  have htext : Parts.text ⟨kw ++ ['=', q], [], ld, m, [q], post⟩ =
      (kw ++ ['=']) ++ q :: ((ld ++ m) ++ q :: post) := by simp [Parts.text]
  rw [htext, hnone] at hsome
  simp at hsome

/-- What one pass does to an attribute, whatever stands around it: what comes before it is written
on its own, the value stays or is replaced as a whole, and from its closing quote on the text is
written as if it stood alone. The pass for the keyword does replace the name after leading
segments. -/
theorem write_attribute {pass : Pass} (hpass : pass ∈ Pass.all) {name kw value : List Char}
    {q : Char} (hkey : Key kw) (hq : IsQuote q) (hvalue : IsValue q value) (hname : Apart q name)
    (honly : OnlyWhole name (q :: (value ++ [q]))) (reference pre post : List Char) :
    ∃ pre' value', pass.write name reference (withAttribute pre kw q value (q :: post)) =
      withAttribute pre' kw q value' (pass.write name reference (q :: post)) ∧
      (value' = value ∧ (pass.IsFor kw → ∀ ld m, Matches lead ld → Spelled name m →
          value ≠ ld ++ m) ∨
        value' = reference ∧ ∃ ld m, value = ld ++ m ∧ Matches lead ld ∧ Spelled name m) := by
  obtain ⟨pre', hpre⟩ := write_append reference
    (separate_attribute hpass hkey hq hname pre (value ++ q :: post))
  unfold withAttribute
  rw [hpre]
  -- either nothing is found before the closing quote, or the first hit is the whole value
  rcases @first_find (pass.mention? name) ((kw ++ ['=']) ++ q :: value) (q :: post) with
    hnone | ⟨u, x, hit, hux, hx, hfind, hcut⟩
  · refine ⟨pre', value, ?_, Or.inl ⟨rfl, fun hfor ld m hld hm hv => ?_⟩⟩
    · have hkeep := write_append_of_none reference hnone
      simpa using hkeep
    · refine @mention?_ne_none_of_isFor _ _ _ _ _ post _ hfor hq hld hm ?_
      have hfirst := hnone _ List.suffix_rfl (by simp)
      simpa [hv] using hfirst
  · obtain ⟨s, rfl, hs, htakes⟩ :=
      mention_cases hpass hq hname.quote_notMem honly hkey hvalue hx hux hfind
    refine ⟨pre', reference, ?_, Or.inr ⟨rfl, htakes.value_eq⟩⟩
    have hwrite : pass.write name reference ((kw ++ ['=']) ++ q :: (value ++ q :: post)) =
        u ++ pass.write name reference ((s ++ q :: value) ++ q :: post) := by
      have htext : (kw ++ ['=']) ++ q :: (value ++ q :: post) =
          ((kw ++ ['=']) ++ q :: value) ++ q :: post := by simp
      rw [htext, Pass.write, hcut, List.flatMap_append, flatMap_write_kept]
      rfl
    rw [hwrite, write_value hq htakes hfind, hs]
    simp

end SiteFolders.Reference
