import SiteFolders.Text.Property

/-!
# Properties by name

The names under which patterns refer to sets of characters: general categories and their groups,
scripts, and a few yes-or-no properties. Names are compared loosely: letter case, blanks, hyphens
and underscores do not count, nor does a leading `is`.
-/

namespace SiteFolders.Text

/-- The part of a name that counts when names are compared. -/
def looseName (name : List Char) : List Char :=
  let kept := (name.filter fun c => c != ' ' && c != '_' && c != '-').map Char.toLower
  match kept with
  | 'i' :: 's' :: rest => if rest = ['c'] ∨ rest = [] then kept else rest
  | _ => kept

/-- The general categories and their groups, each with its names and its two-letter members. -/
def categoryGroups : List (List String × List String) :=
  [(["c", "other"], ["Cc", "Cf", "Cn", "Co", "Cs"]),
   (["cc", "control", "cntrl"], ["Cc"]), (["cf", "format"], ["Cf"]),
   (["cn", "unassigned"], ["Cn"]), (["co", "privateuse"], ["Co"]),
   (["l", "letter"], ["Lu", "Ll", "Lt", "Lm", "Lo"]),
   (["lc", "casedletter"], ["Lu", "Ll", "Lt"]),
   (["ll", "lowercaseletter"], ["Ll"]), (["lm", "modifierletter"], ["Lm"]),
   (["lo", "otherletter"], ["Lo"]), (["lt", "titlecaseletter"], ["Lt"]),
   (["lu", "uppercaseletter"], ["Lu"]),
   (["m", "mark", "combiningmark"], ["Mn", "Mc", "Me"]),
   (["mc", "spacingmark"], ["Mc"]), (["me", "enclosingmark"], ["Me"]),
   (["mn", "nonspacingmark"], ["Mn"]),
   (["n", "number"], ["Nd", "Nl", "No"]), (["nd", "decimalnumber", "digit"], ["Nd"]),
   (["nl", "letternumber"], ["Nl"]), (["no", "othernumber"], ["No"]),
   (["p", "punctuation", "punct"], ["Pc", "Pd", "Pe", "Pf", "Pi", "Po", "Ps"]),
   (["pc", "connectorpunctuation"], ["Pc"]), (["pd", "dashpunctuation"], ["Pd"]),
   (["pe", "closepunctuation"], ["Pe"]), (["pf", "finalpunctuation"], ["Pf"]),
   (["pi", "initialpunctuation"], ["Pi"]), (["po", "otherpunctuation"], ["Po"]),
   (["ps", "openpunctuation"], ["Ps"]),
   (["s", "symbol"], ["Sc", "Sk", "Sm", "So"]), (["sc", "currencysymbol"], ["Sc"]),
   (["sk", "modifiersymbol"], ["Sk"]), (["sm", "mathsymbol"], ["Sm"]),
   (["so", "othersymbol"], ["So"]),
   (["z", "separator"], ["Zl", "Zp", "Zs"]), (["zl", "lineseparator"], ["Zl"]),
   (["zp", "paragraphseparator"], ["Zp"]), (["zs", "spaceseparator"], ["Zs"])]

/-- The set that a general category's name stands for. -/
def categorySet? (name : List Char) : Option (Char → Bool) :=
  let key := String.ofList (looseName name)
  if key = "any" then some fun _ => true
  else if key = "ascii" then some fun c => c.toNat < 0x80
  else if key = "assigned" then some fun c => generalCategory c != "Cn"
  else (categoryGroups.find? (·.1.contains key)).map fun (_, members) c =>
    members.contains (generalCategory c)

/-- The set that a script's name stands for. -/
def scriptSet? (name : List Char) : Option (Char → Bool) :=
  let key := looseName name
  (scriptNames.find? fun names => names.any fun n => looseName n.toList = key).bind
    fun names => names.head?.map fun short c => script c == short

/-- The set that a yes-or-no property's name stands for. -/
def binarySet? (name : List Char) : Option (Char → Bool) :=
  let key := String.ofList (looseName name)
  if key = "alphabetic" ∨ key = "alpha" then some isAlphabetic
  else if key = "lowercase" ∨ key = "lower" then some isLowercase
  else if key = "uppercase" ∨ key = "upper" then some isUppercase
  else if key = "whitespace" ∨ key = "wspace" ∨ key = "space" then some isBlank
  else if key = "cased" then some isCased
  else if key = "caseignorable" ∨ key = "ci" then some isCaseIgnorable
  else if key = "asciihexdigit" ∨ key = "ahex" then some fun c =>
    c.isDigit || ('a' ≤ c && c ≤ 'f') || ('A' ≤ c && c ≤ 'F')
  else none

/-- The set that a lone name stands for. -/
def namedSet? (name : List Char) : Option (Char → Bool) :=
  (binarySet? name).orElse fun _ => (categorySet? name).orElse fun _ => scriptSet? name

/-- The set of the characters that have a value of a property. -/
def valueSet? (property value : List Char) : Option (Char → Bool) :=
  let key := String.ofList (looseName property)
  if key = "gc" ∨ key = "generalcategory" then categorySet? value
  else if key = "sc" ∨ key = "script" ∨ key = "scx" ∨ key = "scriptextensions" then
    scriptSet? value
  else none

end SiteFolders.Text
