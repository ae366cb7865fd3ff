import SiteFolders.Proofs.Regex.Equivalence
import SiteFolders.Proofs.Results
import SiteFolders.Regex.Parser

/-!
# Reading what is written

Syntax trees of expressions without flags, counts and anchors, and how they are written. Reading
what is written of a tree gives the tree's part, in every step as the tree says (`Atom.steps`,
`Sequence.steps`, `Choice.steps`) and so for the whole expression (`read_print`). In particular an
escaped text is read as the characters of the text (`print_ofChars`).
-/

namespace SiteFolders.Regex

open SiteFolders.Text

/-! ## Syntax trees -/

/-- How often something is taken. -/
inductive Times where
  | once
  | optional
  | any
  | some

/-- True of characters that stand for themselves between brackets. -/
def isPlainMember (c : Char) : Bool := !"[]\\&-~^".toList.contains c

mutual

/-- A character, a set or a group. -/
inductive Atom where
  | char (c : Char)
  /-- The class of blanks. -/
  | blank
  /-- A set in brackets: some characters, and the blanks if asked. -/
  | among (first : Char) (others : List Char) (blanks : Bool)
      (plain : (first :: others).all isPlainMember = true)
  | group (captures : Bool) (body : Choice)

/-- Atoms one after another, each with how often it is taken. -/
inductive Sequence where
  | nil
  | cons (atom : Atom) (times : Times) (rest : Sequence)

/-- Alternatives, the preferred ones first. -/
inductive Choice where
  | last (s : Sequence)
  | or (s : Sequence) (rest : Choice)

end

/-! ## How trees are written -/

/-- The mark of a repetition. -/
def Times.print : Times → List Char
  | .once => []
  | .optional => ['?']
  | .any => ['*']
  | .some => ['+']

mutual

/-- An atom as it is written. -/
def Atom.print : Atom → List Char
  | .char c => if isMeta c then ['\\', c] else [c]
  | .blank => ['\\', 's']
  | .among first others blanks _ =>
    '[' :: first :: (others ++ ((if blanks then ['\\', 's'] else []) ++ [']']))
  | .group captures body => '(' :: ((if captures then [] else ['?', ':']) ++ (body.print ++ [')']))

/-- A sequence as it is written. -/
def Sequence.print : Sequence → List Char
  | .nil => []
  | .cons atom times rest => atom.print ++ (times.print ++ rest.print)

/-- Alternatives as they are written. -/
def Choice.print : Choice → List Char
  | .last s => s.print
  | .or s rest => s.print ++ '|' :: rest.print

end

/-! ## What trees stand for -/

/-- The characters that a character stands for. -/
def charSet (flags : Flags) (c : Char) : CharSet :=
  if flags.ignoreCase then
    if flags.unicode then sameFold c
    else fun d => d == c || (isAscii d && d.toLower == c.toLower)
  else fun d => d == c

/-- The members of a set in brackets. -/
def amongSet (chars : List Char) (blanks : Bool) : CharSet :=
  fun d => chars.contains d || (blanks && isBlank d)

/-- The count of a repetition. -/
def Times.count? : Times → Option Count
  | .once => none
  | .optional => Option.some ⟨0, Option.some 1⟩
  | .any => Option.some ⟨0, none⟩
  | .some => Option.some ⟨1, none⟩

/-- A part taken as often as asked. -/
def Times.part (t : Times) (part : Part) : Part := t.count?.elim part part.repeat

/-- True if a repetition is not refused for its size. -/
def Times.fits (t : Times) (part : Part) : Bool :=
  t.count?.all fun count => part.weight * count.high.getD (count.low + 1) ≤ sizeLimit

/-- Parts one after another. -/
def Part.sequence (parts : List Part) : Part :=
  ⟨.concat (parts.map (·.regex)), totalWeight parts⟩

/-- Parts of which one is taken. -/
def Part.choice (parts : List Part) : Part :=
  ⟨.choice (parts.map (·.regex)), totalWeight parts + 32 * parts.length⟩

/-- A part in parentheses. -/
def Part.grouped (part : Part) : Part := ⟨part.regex, part.weight + 64⟩

mutual

/-- What an atom stands for. -/
def Atom.part (flags : Flags) : Atom → Part
  | .char c => ⟨.one (charSet flags c), 32 * c.utf8Size⟩
  | .blank => ⟨.one isBlank, 4096⟩
  | .among first others blanks _ => ⟨.one (closeSet flags (amongSet (first :: others) blanks)), 512⟩
  | .group _ body => (Part.choice (body.parts flags)).grouped

/-- What the members of a sequence stand for. -/
def Sequence.parts (flags : Flags) : Sequence → List Part
  | .nil => []
  | .cons atom times rest => times.part (atom.part flags) :: rest.parts flags

/-- What the alternatives stand for. -/
def Choice.parts (flags : Flags) : Choice → List Part
  | .last s => [.sequence (s.parts flags)]
  | .or s rest => .sequence (s.parts flags) :: rest.parts flags

end

mutual

/-- True if no repetition of an atom is refused for its size. -/
def Atom.fits (flags : Flags) : Atom → Bool
  | .group _ body => body.fits flags
  | _ => true

/-- True if no repetition in a sequence is refused for its size. -/
def Sequence.fits (flags : Flags) : Sequence → Bool
  | .nil => true
  | .cons atom times rest =>
    atom.fits flags && times.fits (atom.part flags) && rest.fits flags

/-- True if no repetition in alternatives is refused for its size. -/
def Choice.fits (flags : Flags) : Choice → Bool
  | .last s => s.fits flags
  | .or s rest => s.fits flags && rest.fits flags

end

/-! ## Sequences put together -/

/-- One sequence after another. -/
def Sequence.append : Sequence → Sequence → Sequence
  | .nil, ys => ys
  | .cons atom times rest, ys => .cons atom times (rest.append ys)

instance : Append Sequence := ⟨Sequence.append⟩

/-- The characters of a text. -/
def Sequence.ofChars : List Char → Sequence
  | [] => .nil
  | c :: rest => .cons (.char c) .once (ofChars rest)

/-- Atoms one after another. -/
def Sequence.ofList : List (Atom × Times) → Sequence
  | [] => .nil
  | (atom, times) :: rest => .cons atom times (ofList rest)

@[simp] theorem Sequence.nil_append (ys : Sequence) : Sequence.nil ++ ys = ys := rfl

@[simp] theorem Sequence.cons_append (atom : Atom) (times : Times) (rest ys : Sequence) :
    Sequence.cons atom times rest ++ ys = .cons atom times (rest ++ ys) := rfl

@[simp] theorem Sequence.print_append : ∀ xs ys : Sequence,
    (xs ++ ys).print = xs.print ++ ys.print
  | .nil, _ => rfl
  | .cons atom times rest, ys => by simp [Sequence.print, Sequence.print_append rest ys]

@[simp] theorem Sequence.parts_append (flags : Flags) : ∀ xs ys : Sequence,
    (xs ++ ys).parts flags = xs.parts flags ++ ys.parts flags
  | .nil, _ => rfl
  | .cons atom times rest, ys => by simp [Sequence.parts, Sequence.parts_append flags rest ys]

@[simp] theorem Sequence.fits_append (flags : Flags) : ∀ xs ys : Sequence,
    (xs ++ ys).fits flags = (xs.fits flags && ys.fits flags)
  | .nil, _ => rfl
  | .cons atom times rest, ys => by
    simp [Sequence.fits, Sequence.fits_append flags rest ys, Bool.and_assoc]

@[simp] theorem Sequence.fits_ofChars (flags : Flags) : ∀ cs : List Char,
    (Sequence.ofChars cs).fits flags = true
  | [] => rfl
  | _ :: cs => Sequence.fits_ofChars flags cs

/-! ## Factors of trees -/

/-- The expression that an atom stands for. -/
def Atom.regex (flags : Flags) (a : Atom) : Regex := (a.part flags).regex

/-- The expression that a sequence stands for. -/
def Sequence.regex (flags : Flags) (xs : Sequence) : Regex := (Part.sequence (xs.parts flags)).regex

/-- The expression that alternatives stand for. -/
def Choice.regex (flags : Flags) (c : Choice) : Regex := (Part.choice (c.parts flags)).regex

/-- An expression taken as often as asked. -/
def Times.regex : Times → Regex → Regex
  | .once, r => r
  | .optional, r => .opt r
  | .any, r => .star r
  | .some, r => .plus r

theorem Times.factors_part (t : Times) (part : Part) :
    (t.part part).regex.factors = (t.regex part.regex).factors := by
  cases t <;> rfl

section

variable (flags : Flags)

@[simp] theorem Sequence.factors_nil : (Sequence.nil.regex flags).factors = [] := rfl

@[simp] theorem Sequence.factors_cons (atom : Atom) (times : Times) (xs : Sequence) :
    ((Sequence.cons atom times xs).regex flags).factors =
      (times.regex (atom.regex flags)).factors ++ (xs.regex flags).factors := by
  simp [Sequence.regex, Sequence.parts, Part.sequence, Times.factors_part, Atom.regex]

@[simp] theorem Sequence.factors_append (xs ys : Sequence) :
    ((xs ++ ys).regex flags).factors = (xs.regex flags).factors ++ (ys.regex flags).factors := by
  simp [Sequence.regex, Part.sequence]

@[simp] theorem Sequence.factors_ofChars (cs : List Char) :
    ((Sequence.ofChars cs).regex flags).factors = cs.map fun c => .one (charSet flags c) := by
  induction cs with
  | nil => rfl
  | cons c cs ih =>
    rw [Sequence.ofChars, Sequence.factors_cons, ih]
    rfl

theorem Choice.regex_last (xs : Sequence) : (Choice.last xs).regex flags = xs.regex flags := rfl

theorem Choice.regex_or (xs : Sequence) (c : Choice) :
    (Choice.or xs c).regex flags = .alt (xs.regex flags) (c.regex flags) := by
  cases c <;> rfl

theorem Atom.regex_group (captures : Bool) (body : Choice) :
    (Atom.group captures body).regex flags = body.regex flags := rfl

end

/-! ## Steps of reading -/

/-- Flags under which blanks count and characters are those of Unicode. -/
structure Flags.Usual (flags : Flags) : Prop where
  verbose : flags.verbose = false
  unicode : flags.unicode = true

/-- Reading takes one state to another while it gets from one text to what is left of it. Every
step takes a character at least. -/
def Progress.Steps (s : Progress) (text : List Char) (s' : Progress) (rest : List Char) : Prop :=
  ∃ k, k + rest.length ≤ text.length ∧
    ∀ fuel, Progress.read (k + fuel) s text = Progress.read fuel s' rest

theorem Progress.Steps.refl (s : Progress) (text : List Char) : s.Steps text s text :=
  ⟨0, by omega, fun fuel => by rw [Nat.zero_add]⟩

theorem Progress.Steps.trans {s s' s'' : Progress} {text mid rest : List Char}
    (h : s.Steps text s' mid) (h' : s'.Steps mid s'' rest) : s.Steps text s'' rest := by
  obtain ⟨k, hk, hread⟩ := h
  obtain ⟨k', hk', hread'⟩ := h'
  refine ⟨k + k', by omega, fun fuel => ?_⟩
  rw [Nat.add_assoc, hread, hread']

theorem Progress.steps_of_read {s s' : Progress} {text rest : List Char}
    (hlen : rest.length < text.length)
    (h : ∀ fuel, Progress.read (fuel + 1) s text = Progress.read fuel s' rest) :
    s.Steps text s' rest := by
  refine ⟨1, by omega, fun fuel => ?_⟩
  rw [Nat.add_comm, h]

/-- A text that is read to its end outside of all groups is an expression. -/
theorem Progress.Steps.read_eq {s s' : Progress} {text : List Char} (h : s.Steps text s' [])
    (hgroups : s'.groups = []) :
    Progress.read (text.length + 1) s text = .ok s'.body := by
  obtain ⟨k, hk, hread⟩ := h
  obtain ⟨m, hm⟩ : ∃ m, text.length + 1 = k + (m + 1) := ⟨text.length - k, by simp at hk; omega⟩
  rw [hm, hread, Progress.read, skipBlanks]
  simp [hgroups]

theorem skipBlanks_eq {flags : Flags} (h : flags.Usual) (text : List Char) :
    skipBlanks flags text = text := by
  cases text <;> simp [skipBlanks, h.verbose]

theorem dropLazy_eq {rest : List Char} (h : rest.head? ≠ some '?') : dropLazy rest = rest := by
  unfold dropLazy
  split
  · simp at h
  · rfl

/-- The state after some more parts. -/
def Progress.pushAll (s : Progress) (parts : List Part) : Progress :=
  { s with pieces := (parts.map some).reverse ++ s.pieces }

@[simp] theorem Progress.pushAll_pushAll (s : Progress) (ps qs : List Part) :
    (s.pushAll ps).pushAll qs = s.pushAll (ps ++ qs) := by
  simp [Progress.pushAll]

/-- Parts that are all there is in an alternative are that alternative. -/
theorem Progress.alternative_pushAll {s : Progress} (h : s.pieces = []) (ps : List Part) :
    (s.pushAll ps).alternative = .sequence ps := by
  simp [Progress.alternative, Progress.pushAll, Part.sequence, h, List.filterMap_map]

@[simp] theorem Progress.flags_pushAll (s : Progress) (ps : List Part) :
    (s.pushAll ps).flags = s.flags := rfl

/-! ## Sets in brackets -/

theorem ne_of_isPlainMember {c : Char} (h : isPlainMember c = true) :
    ∀ d ∈ "[]\\&-~^".toList, c ≠ d := by
  rintro d hd rfl
  rw [isPlainMember, List.contains_iff_mem.2 hd] at h
  cases h

/-- A backslash takes the meaning of a character away. -/
theorem readEscape_meta (flags : Flags) {c : Char} (hc : isMeta c = true) (rest : List Char) :
    readEscape flags (c :: rest) = .ok (.char c, rest) := by
  simp only [isMeta, String.reduceToList, List.contains_iff_mem, List.mem_cons, List.not_mem_nil,
    or_false] at hc
  rcases hc with rfl | rfl | rfl | rfl | rfl | rfl | rfl | rfl | rfl | rfl | rfl | rfl | rfl | rfl |
    rfl | rfl | rfl | rfl <;> rfl

theorem readEscape_blank {flags : Flags} (hflags : flags.Usual) (rest : List Char) :
    readEscape flags ('s' :: rest) = .ok (.set isBlank, rest) := by
  simp only [readEscape, perlSet?, hflags.unicode]
  rfl

/-- No hyphen comes after the members of a set. -/
theorem head?_members_ne (blanks : Bool) (rest : List Char) {chars : List Char}
    (h : chars.all isPlainMember = true) :
    (chars ++ ((if blanks then ['\\', 's'] else []) ++ ']' :: rest)).head? ≠ some '-' := by
  cases chars with
  | nil => cases blanks <;> simp
  | cons d chars =>
    have hd : isPlainMember d = true := (List.all_eq_true.1 h) d List.mem_cons_self
    simpa using ne_of_isPlainMember hd '-' (by decide)

section Sets

variable {flags : Flags} (hflags : flags.Usual)
include hflags

/-- A member that no hyphen follows is no range. -/
theorem readRange_eq {text rest : List Char} {e : Escape} {p : CharSet}
    (hmember : readMember flags text = .ok (e, rest))
    (he : e = .set p ∨ ∃ c, e = .char c ∧ p = fun d => d == c)
    (hrest : rest ≠ []) (hhyphen : rest.head? ≠ some '-') :
    readRange flags text = .ok (p, rest) := by
  simp only [readRange, hmember, skipBlanks_eq hflags, ok_bind, hflags.unicode]
  split
  · exact absurd rfl hrest
  · simp at hhyphen
  · rcases he with rfl | ⟨c, rfl, rfl⟩ <;> rfl

theorem readSet_close {m : Members} (h : m.pending = none) (fuel : Nat) (rest : List Char) :
    readSet flags (fuel + 1) false m (']' :: rest) = .ok (closeSet flags m.union, rest) := by
  simp only [readSet, skipBlanks_eq hflags, finishSet, Members.close, h]
  rfl

theorem readSet_member {c : Char} {text rest : List Char} {p : CharSet}
    (hc : isPlainMember c = true ∨ c = '\\') (hrange : readRange flags (c :: text) = .ok (p, rest))
    (m : Members) (fuel : Nat) :
    readSet flags (fuel + 1) false m (c :: text) = readSet flags fuel false (m.add p) rest := by
  have hne : c ≠ '[' ∧ c ≠ ']' ∧ c ≠ '&' ∧ c ≠ '-' ∧ c ≠ '~' := by
    rcases hc with hc | rfl
    · have hc := ne_of_isPlainMember hc
      exact ⟨hc _ (by decide), hc _ (by decide), hc _ (by decide), hc _ (by decide), hc _ (by decide)⟩
    · decide
  rw [readSet, skipBlanks_eq hflags]
  split
  case h_7 =>
    rw [hrange]
    rfl
  all_goals simp_all

/-- Reads the members of a set one after another up to the closing bracket. -/
theorem readSet_eq (blanks : Bool) (rest : List Char) : ∀ {chars : List Char} {m : Members} {fuel : Nat},
    chars.all isPlainMember = true → m.pending = none → chars.length + 1 < fuel →
    readSet flags fuel false m (chars ++ ((if blanks then ['\\', 's'] else []) ++ ']' :: rest)) =
      .ok (closeSet flags fun d => m.union d || amongSet chars blanks d, rest)
  | [], m, fuel + 2, _, hpending, _ => by
    cases blanks with
    | false => simp [readSet_close hflags hpending, amongSet]
    | true =>
      have hrange : readRange flags ('\\' :: 's' :: ']' :: rest) = .ok (isBlank, ']' :: rest) := by
        exact readRange_eq hflags (readEscape_blank hflags (']' :: rest)) (.inl rfl) (by simp) (by simp)
      simp only [if_true, List.nil_append, List.cons_append]
      rw [readSet_member hflags (.inr rfl) hrange, readSet_close hflags (by exact hpending)]
      simp [Members.add, amongSet]
  | c :: chars, m, fuel + 1, hplain, hpending, hfuel => by
    obtain ⟨hc, hchars⟩ : isPlainMember c = true ∧ chars.all isPlainMember = true := by
      simpa using hplain
    have hmember : ∀ more, readMember flags (c :: more) = .ok (.char c, more) := by
      intro more
      have hbackslash := ne_of_isPlainMember hc '\\' (by decide)
      simp [readMember]
    have hrange := readRange_eq hflags
      (hmember (chars ++ ((if blanks then ['\\', 's'] else []) ++ ']' :: rest)))
      (.inr ⟨c, rfl, rfl⟩) (by simp) (head?_members_ne blanks rest hchars)
    rw [List.cons_append, readSet_member hflags (.inl hc) hrange,
      readSet_eq blanks rest hchars (by exact hpending) (by simpa using hfuel)]
    simp only [Members.add, amongSet, List.contains_cons, Bool.or_assoc]

theorem readBracketed_eq (blanks : Bool) (rest : List Char) {first : Char} {others : List Char}
    (hplain : (first :: others).all isPlainMember = true) :
    readBracketed flags (first :: (others ++ ((if blanks then ['\\', 's'] else []) ++ ']' :: rest))) =
      .ok (closeSet flags (amongSet (first :: others) blanks), rest) := by
  have hfirst := ne_of_isPlainMember ((List.all_eq_true.1 hplain) first List.mem_cons_self)
  have hbracket := hfirst ']' (by decide)
  have hcaret := hfirst '^' (by decide)
  have hhyphen := hfirst '-' (by decide)
  have hstart : ∀ more, readSetStart flags (first :: more) = (false, {}, first :: more) := by
    intro more
    have hhyphens : readSetStart.leadingHyphens flags (more.length + 1) false (first :: more) =
        (false, first :: more) := by
      simp [readSetStart.leadingHyphens, hhyphen]
    simp [readSetStart, skipBlanks_eq hflags, hcaret, hhyphens, hbracket]
  rw [readBracketed, hstart]
  change readSet flags _ false {}
    ((first :: others) ++ ((if blanks then ['\\', 's'] else []) ++ ']' :: rest)) = _
  rw [readSet_eq hflags blanks rest hplain rfl (by simp; omega)]
  simp

end Sets

/-! ## Single steps -/

section Single

variable {s : Progress} (hflags : s.flags.Usual) (rest : List Char)
include hflags

/-- A character without a meaning of its own stands for itself. -/
theorem steps_char {c : Char} (hc : isMeta c = false) :
    s.Steps (c :: rest) (s.pushAll [⟨.one (charSet s.flags c), 32 * c.utf8Size⟩]) rest := by
  refine Progress.steps_of_read (by simp) fun fuel => ?_
  rw [Progress.read, skipBlanks_eq hflags]
  split
  case h_14 heq =>
    obtain ⟨rfl, rfl⟩ := List.cons.inj heq
    rfl
  case h_1 heq => cases heq
  all_goals
    next heq =>
      obtain ⟨rfl, -⟩ := List.cons.inj heq
      exact absurd hc (by decide)

/-- So does a character with a meaning of its own after a backslash. -/
theorem steps_escaped {c : Char} (hc : isMeta c = true) :
    s.Steps ('\\' :: c :: rest) (s.pushAll [⟨.one (charSet s.flags c), 32 * c.utf8Size⟩]) rest := by
  refine Progress.steps_of_read (by simp only [List.length_cons]; omega) fun fuel => ?_
  rw [Progress.read, skipBlanks_eq hflags]
  simp only [readEscape_meta s.flags hc]
  rfl

theorem steps_blank :
    s.Steps ('\\' :: 's' :: rest) (s.pushAll [⟨.one isBlank, 4096⟩]) rest := by
  refine Progress.steps_of_read (by simp only [List.length_cons]; omega) fun fuel => ?_
  rw [Progress.read, skipBlanks_eq hflags]
  simp only [readEscape_blank hflags]
  rfl

theorem steps_among (first : Char) (others : List Char) (blanks : Bool)
    (hplain : (first :: others).all isPlainMember = true) :
    s.Steps ((Atom.among first others blanks hplain).print ++ rest)
      (s.pushAll [(Atom.among first others blanks hplain).part s.flags]) rest := by
  refine Progress.steps_of_read ?_ fun fuel => ?_
  · simp only [Atom.print, List.cons_append, List.append_assoc, List.length_cons, List.length_append]
    omega
  have hread := readBracketed_eq hflags blanks rest hplain
  rw [Atom.print, List.cons_append, List.cons_append, List.append_assoc, List.append_assoc,
    List.singleton_append, Progress.read, skipBlanks_eq hflags]
  simp only [hread]
  rfl

/-- A repetition counts for the last part. -/
theorem steps_times (t : Times) (part : Part) (hfits : t.fits part = true)
    (hrest : rest.head? ≠ some '?') :
    (s.pushAll [part]).Steps (t.print ++ rest) (s.pushAll [t.part part]) rest := by
  have hrepeat : ∀ count, t.count? = Option.some count →
      (s.pushAll [part]).repeatLast count = .ok (s.pushAll [t.part part]) := by
    intro count hcount
    have hle : part.weight * count.high.getD (count.low + 1) ≤ sizeLimit := by
      simpa [Times.fits, hcount] using hfits
    simp only [Progress.repeatLast, Progress.pushAll, List.map_cons, List.map_nil, List.reverse_cons,
      List.reverse_nil, List.nil_append, List.singleton_append, Times.part, hcount, Option.elim_some]
    rw [if_neg (Nat.not_lt.2 hle)]
  cases t with
  | once => exact .refl _ _
  | _ =>
    refine Progress.steps_of_read (by simp [Times.print]) fun fuel => ?_
    rw [Times.print, List.singleton_append, Progress.read, skipBlanks_eq (by exact hflags)]
    simp only [hrepeat _ rfl, dropLazy_eq hrest]
    rfl

/-- A parenthesis opens a group, whether it is captured or not. -/
theorem steps_open (captures : Bool) (hrest : rest.head? ≠ some '?') :
    s.Steps ('(' :: ((if captures then [] else ['?', ':']) ++ rest)) (s.openGroup s.flags) rest := by
  refine Progress.steps_of_read ?_ fun fuel => ?_
  · simp only [List.length_cons, List.length_append]
    omega
  rw [Progress.read, skipBlanks_eq hflags]
  cases captures with
  | false =>
    simp [Progress.readOpening, skipBlanks_eq hflags, readFlags]
  | true =>
    have hopening : s.readOpening rest = .ok (s.openGroup s.flags, rest) := by
      unfold Progress.readOpening
      rw [skipBlanks_eq hflags]
      split <;> simp_all
    simp only [if_true, List.nil_append, hopening]
    rfl

/-- A vertical line ends an alternative. -/
theorem steps_bar : s.Steps ('|' :: rest)
    { s with alternatives := s.alternative :: s.alternatives, pieces := [] } rest := by
  refine Progress.steps_of_read (by simp) fun fuel => ?_
  rw [Progress.read, skipBlanks_eq hflags]
  rfl

/-- The closing parenthesis makes one part of what has been read since the opening one. -/
theorem steps_close {g : OpenGroup} {groups : List OpenGroup} (hgroups : s.groups = g :: groups) :
    s.Steps (')' :: rest)
      { s with groups, alternatives := g.alternatives, pieces := some s.body.grouped :: g.pieces,
               flags := g.flags } rest := by
  refine Progress.steps_of_read (by simp) fun fuel => ?_
  rw [Progress.read, skipBlanks_eq hflags]
  simp only [Progress.closeGroup, hgroups]
  rfl

end Single

/-! ## Reading trees -/

/-- Nothing that is written starts with a question mark. -/
theorem Atom.head?_print_ne (a : Atom) (rest : List Char) : (a.print ++ rest).head? ≠ some '?' := by
  cases a with
  | char c =>
    cases hc : isMeta c with
    | false =>
      rintro h
      obtain rfl : c = '?' := by simpa [Atom.print, hc] using h
      exact absurd hc (by decide)
    | true => simp [Atom.print, hc]
  | _ => simp [Atom.print]

theorem Sequence.head?_print_ne (xs : Sequence) (rest : List Char) (hrest : rest.head? ≠ some '?') :
    (xs.print ++ rest).head? ≠ some '?' := by
  cases xs with
  | nil => exact hrest
  | cons atom times xs =>
    rw [Sequence.print, List.append_assoc]
    exact atom.head?_print_ne _

theorem Choice.head?_print_ne (c : Choice) (rest : List Char) (hrest : rest.head? ≠ some '?') :
    (c.print ++ rest).head? ≠ some '?' := by
  cases c with
  | last s => exact s.head?_print_ne rest hrest
  | or s c =>
    rw [Choice.print, List.append_assoc]
    exact s.head?_print_ne _ (by simp)

mutual

/-- Reading what is written of an atom adds its part. -/
theorem Atom.steps : ∀ (a : Atom) {s : Progress} (rest : List Char), s.flags.Usual →
    a.fits s.flags = true → s.Steps (a.print ++ rest) (s.pushAll [a.part s.flags]) rest
  | .char c, s, rest, hflags, _ => by
    cases hc : isMeta c with
    | false => simpa [Atom.print, Atom.part, hc] using steps_char hflags rest hc
    | true => simpa [Atom.print, Atom.part, hc] using steps_escaped hflags rest hc
  | .blank, s, rest, hflags, _ => steps_blank hflags rest
  | .among first others blanks plain, s, rest, hflags, _ =>
    steps_among hflags rest first others blanks plain
  | .group captures body, s, rest, hflags, hfits => by
    have hbody : (body.print ++ ')' :: rest).head? ≠ some '?' :=
      body.head?_print_ne _ (by simp)
    obtain ⟨s', hsteps, hgroups, hflags', hnames, hparts⟩ :=
      body.steps (s := s.openGroup s.flags) (')' :: rest) hflags hfits rfl (by simp)
    have hopen := steps_open hflags _ captures hbody
    have hflags'' : s'.flags.Usual := by rwa [hflags']
    have hpart : s'.body = .choice (body.parts s.flags) := congrArg Part.choice hparts
    have h := ((steps_open hflags _ captures hbody).trans hsteps).trans
      (steps_close hflags'' rest hgroups)
    rw [hpart, hnames] at h
    rw [Atom.print, List.cons_append, List.append_assoc, List.append_assoc, List.singleton_append]
    exact h

/-- Reading what is written of a sequence adds the parts of its members. -/
theorem Sequence.steps : ∀ (xs : Sequence) {s : Progress} (rest : List Char), s.flags.Usual →
    xs.fits s.flags = true → rest.head? ≠ some '?' →
    s.Steps (xs.print ++ rest) (s.pushAll (xs.parts s.flags)) rest
  | .nil, s, rest, _, _, _ => .refl s rest
  | .cons atom times xs, s, rest, hflags, hfits, hrest => by
    simp only [Sequence.fits, Bool.and_eq_true] at hfits
    obtain ⟨⟨hatom, htimes⟩, hxs⟩ := hfits
    have hnext : (xs.print ++ rest).head? ≠ some '?' := xs.head?_print_ne rest hrest
    have h := ((atom.steps _ hflags hatom).trans (steps_times hflags _ times _ htimes hnext)).trans
      (xs.steps (s := s.pushAll _) rest hflags hxs hrest)
    rw [Sequence.print, Sequence.parts, List.append_assoc, List.append_assoc]
    simpa using h

/-- Reading what is written of alternatives makes them the alternatives of the innermost group. -/
theorem Choice.steps : ∀ (c : Choice) {s : Progress} (rest : List Char), s.flags.Usual →
    c.fits s.flags = true → s.pieces = [] → rest.head? ≠ some '?' →
    ∃ s', s.Steps (c.print ++ rest) s' rest ∧ s'.groups = s.groups ∧ s'.flags = s.flags ∧
      s'.names = s.names ∧
      (s'.alternative :: s'.alternatives).reverse = s.alternatives.reverse ++ c.parts s.flags
  | .last xs, s, rest, hflags, hfits, hpieces, hrest => by
    refine ⟨_, xs.steps rest hflags hfits hrest, rfl, rfl, rfl, ?_⟩
    rw [List.reverse_cons, Progress.alternative_pushAll hpieces]
    rfl
  | .or xs c, s, rest, hflags, hfits, hpieces, hrest => by
    simp only [Choice.fits, Bool.and_eq_true] at hfits
    obtain ⟨hxs, hc⟩ := hfits
    have hsteps := (xs.steps ('|' :: (c.print ++ rest)) hflags hxs (by simp)).trans
      (steps_bar (s := s.pushAll _) hflags (c.print ++ rest))
    rw [Progress.alternative_pushAll hpieces] at hsteps
    obtain ⟨s', hsteps', hgroups, hflags', hnames, hparts⟩ :=
      c.steps (s := { s with alternatives := .sequence (xs.parts s.flags) :: s.alternatives, pieces := [] })
        rest hflags hc rfl hrest
    refine ⟨s', ?_, hgroups, hflags', hnames, ?_⟩
    · rw [Choice.print, List.append_assoc, List.cons_append]
      exact hsteps.trans hsteps'
    · rw [hparts]
      simp [Choice.parts]

end

/-- Reading what is written of alternatives gives what they stand for. -/
theorem read_print {flags : Flags} (hflags : flags.Usual) (c : Choice) (hfits : c.fits flags = true) :
    Progress.read (c.print.length + 1) { flags } c.print = .ok (.choice (c.parts flags)) := by
  obtain ⟨s', hsteps, hgroups, -, -, hparts⟩ :=
    c.steps (s := { flags }) [] hflags hfits rfl (by simp)
  rw [List.append_nil] at hsteps
  rw [hsteps.read_eq hgroups]
  exact congrArg (fun parts => Except.ok (Part.choice parts)) hparts

end SiteFolders.Regex
