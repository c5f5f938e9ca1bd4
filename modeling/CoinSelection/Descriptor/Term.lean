/-!
# Terms

A descriptor is written as a term: a name, and in parentheses the terms it is
applied to, separated by commas.  The reader below accepts exactly one term and
nothing after it.
-/

namespace CoinSelection.Descriptor

/-- A name applied to terms. -/
inductive Term
  | apply (name : String) (arguments : List Term)

/-- Whether a character belongs to a name. -/
def isNameChar (char : Char) : Bool :=
  char ≠ '(' && char ≠ ')' && char ≠ ','

mutual

/-- Read one term.  The first argument bounds its depth and width together. -/
def readTerm : Nat → List Char → Option (Term × List Char)
  | 0, _ => none
  | bound + 1, text =>
      let name := String.ofList (text.takeWhile isNameChar)
      match text.dropWhile isNameChar with
      | '(' :: rest => do
          let (arguments, rest) ← readArguments bound rest
          pure (.apply name arguments, rest)
      | rest => some (.apply name [], rest)

/-- Read the terms up to a closing parenthesis. -/
def readArguments : Nat → List Char → Option (List Term × List Char)
  | 0, _ => none
  | bound + 1, text => do
      let (first, rest) ← readTerm bound text
      match rest with
      | ')' :: rest => some ([first], rest)
      | ',' :: rest => do
          let (others, rest) ← readArguments bound rest
          pure (first :: others, rest)
      | _ => none

end

/-- Read a text that is one term. -/
def Term.parse? (text : List Char) : Option Term :=
  match readTerm (2 * text.length + 1) text with
  | some (term, []) => some term
  | _ => none

end CoinSelection.Descriptor
