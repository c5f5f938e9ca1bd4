/-!
# Checksums of descriptors

A descriptor may end in `#` and eight characters that guard it against typing
errors.  They are the remainder of a polynomial whose coefficients come from
the characters before them, three bits from the group of every character and
five from its place in the group.
-/

namespace CoinSelection.Descriptor

/-- The characters a descriptor is made of, in groups of thirty-two. -/
def descriptorAlphabet : List Char :=
  ("0123456789()[],'/*abcdefgh@:$%\x7b\x7d" ++
    "IJKLMNOPQRSTUVWXYZ&+-.;<=>?!^_|~" ++
    "ijklmnopqrstuvwxyzABCDEFGH\x60#\"\\ ").toList

/-- The characters a checksum is made of. -/
def checksumAlphabet : List Char :=
  "qpzry9x8gf2tvdw0s3jn54khce6mua7l".toList

/-- The polynomials added for each of the five bits that leave the remainder. -/
def generators : List Nat :=
  [0xf5dee51989, 0xa9fdca3312, 0x1bab10e32d, 0x3706b1677a, 0x644d626ffd]

/-- Append one coefficient of five bits to a remainder. -/
def absorb (remainder coefficient : Nat) : Nat :=
  let leaving := remainder >>> 35
  let shifted := ((remainder &&& 0x7ffffffff) <<< 5) ^^^ coefficient
  (generators.zipIdx.filter fun generator => leaving.testBit generator.2).foldl
    (fun result generator => result ^^^ generator.1) shifted

/-- The coefficients of a text: the places of its characters, with the groups
of every three of them, or of those left at the end, after them. -/
def coefficients : List Nat → List Nat
  | first :: second :: third :: rest =>
      first % 32 :: second % 32 :: third % 32 ::
        (9 * (first / 32) + 3 * (second / 32) + third / 32) :: coefficients rest
  | [first, second] => [first % 32, second % 32, 3 * (first / 32) + second / 32]
  | [first] => [first % 32, first / 32]
  | [] => []

/-- The checksum of a text, if all of its characters may stand in a
descriptor. -/
def checksum? (text : List Char) : Option (List Char) := do
  let places ← text.mapM (descriptorAlphabet.idxOf? ·)
  let terms := coefficients places ++ List.replicate 8 0
  let remainder := terms.foldl absorb 1 ^^^ 1
  pure ((List.range 8).map fun position =>
    checksumAlphabet.getD ((remainder >>> (5 * (7 - position))) % 32) 'q')

/-- Split off a checksum and verify it. -/
def verified? (text : List Char) : Option (List Char) :=
  let body := text.takeWhile (· ≠ '#')
  match text.dropWhile (· ≠ '#') with
  | [] => some body
  | _ :: given => if checksum? body = some given then some body else none

end CoinSelection.Descriptor
