import SiteFolders.Text.CaseTable

/-!
# Simple case folding

Two characters are the same up to letter case if their simple foldings are equal. `foldVariants`
lists the class of a character, for sets that are closed under this relation.
-/

namespace SiteFolders.Text

/-- The simple case folding of a character. -/
def fold (c : Char) : Char :=
  if c.toNat < 0x80 then c.toLower
  else match foldRuns.findSome? (·.image? c.toNat) with
    | some n => Char.ofNat n
    | none => c

/-- Equality up to letter case. -/
def sameFold (a b : Char) : Bool := fold a == fold b

@[simp] theorem sameFold_refl (c : Char) : sameFold c c = true := by simp [sameFold]

theorem sameFold_comm (a b : Char) : sameFold a b = sameFold b a := by
  simp only [sameFold]
  exact Bool.beq_comm

/-- Every character that equals `c` up to letter case. -/
def foldVariants (c : Char) : List Char :=
  let target := fold c
  target :: foldRuns.filterMap fun run => (run.preimage? target.toNat).map Char.ofNat

/-- The smallest set that holds `p` and is closed under equality up to letter case. -/
def foldClosure (p : Char → Bool) (c : Char) : Bool := (foldVariants c).any p

end SiteFolders.Text
