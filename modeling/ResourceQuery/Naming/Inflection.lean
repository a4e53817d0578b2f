import ResourceQuery.Text.Split

/-!
# Naming — singular and plural

Simple English inflection, from which default key names are made.  A table of irregular words comes
first, then suffix rules in a fixed order.
-/

namespace ResourceQuery.Naming

/-- Irregular words, singular and plural. -/
def irregular : List (String × String) :=
  [("person", "people"), ("child", "children"), ("man", "men"), ("woman", "women"),
   ("foot", "feet"), ("tooth", "teeth"), ("goose", "geese"), ("mouse", "mice"),
   ("datum", "data"), ("index", "indices"), ("matrix", "matrices"), ("vertex", "vertices"),
   ("analysis", "analyses"), ("crisis", "crises")]

/-- The word ends in `tail`. -/
def endsWith (tail : String) (word : List Char) : Bool :=
  (Text.dropTail tail.toList word).isSome

/-- The plural of a regular word: `-es` after a hissing sound, `-ies` for `y` after a consonant,
`-s` otherwise. -/
def regularPlural (word : List Char) : List Char :=
  if endsWith "s" word || endsWith "x" word || endsWith "ch" word || endsWith "sh" word then
    word ++ "es".toList
  else
    match Text.dropTail ['y'] word with
    | some stem =>
      match stem.getLast? with
      | some c => if "aeiou".toList.contains c then word ++ ['s'] else stem ++ "ies".toList
      | none   => word ++ ['s']
    | none      => word ++ ['s']

/-- The plural of a word; the empty word has none. -/
def pluralize (word : String) : String :=
  match irregular.find? fun (singular, _) => singular = word with
  | some (_, plural) => plural
  | none             =>
    if word.isEmpty then "" else String.ofList (regularPlural word.toList)

/-- Drops a final `s` from a word that keeps some other ending. -/
def withoutFinalS (word : List Char) : List Char :=
  match Text.dropTail ['s'] word with
  | some stem => if stem.isEmpty || endsWith "s" stem then word else stem
  | none      => word

/-- The singular of a regular word: `-y` for `-ies`, `-es` dropped after a hissing sound, a single
final `-s` dropped. -/
def regularSingular (word : List Char) : List Char :=
  let rest :=
    if endsWith "sses" word || endsWith "xes" word || endsWith "ches" word || endsWith "shes" word
    then word.take (word.length - 2)
    else withoutFinalS word
  match Text.dropTail "ies".toList word with
  | some stem => if stem.isEmpty then rest else stem ++ ['y']
  | none      => rest

/-- The singular of a word. -/
def singularize (word : String) : String :=
  match irregular.find? fun (_, plural) => plural = word with
  | some (singular, _) => singular
  | none               => String.ofList (regularSingular word.toList)

end ResourceQuery.Naming
