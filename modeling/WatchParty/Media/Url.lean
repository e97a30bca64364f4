import WatchParty.Lib.Utf16

/-!
# URLs

`new URL(s, RELATIVE_BASE)`, as the URL standard has it, and what `shared/media-source.ts` reads of a URL.

- what the parser makes of an input with a scheme or with an authority is a parameter;
- any other input is a path, with a query, under the base (`relative`).
-/

namespace WatchParty
namespace Media

open JSString

/-- The getters of a URL. -/
structure URL where
  protocol : JSString
  hostname : JSString
  pathname : JSString
  search : JSString
  deriving DecidableEq, Repr

/-! ## Percent signs -/

def hexDigit (n : ℕ) : UInt16 := if n < 10 then (0x30 + n).toUInt16 else (0x37 + n).toUInt16

def hexValue (b : UInt8) : Option ℕ :=
  if 0x30 ≤ b ∧ b ≤ 0x39 then some (b.toNat - 0x30)
  else if 0x41 ≤ b ∧ b ≤ 0x46 then some (b.toNat - 0x37)
  else if 0x61 ≤ b ∧ b ≤ 0x66 then some (b.toNat - 0x57)
  else none

/-- A character, with its bytes in percent signs if it is in the set. -/
def percentEncode (set : Char → Bool) (c : Char) : JSString :=
  if set c then (String.utf8EncodeChar c).flatMap fun b => [0x25, hexDigit (b.toNat / 16), hexDigit (b.toNat % 16)]
  else units [c]

def percentDecode : List UInt8 → List UInt8
  | [] => []
  | [b] => [b]
  | [b, c] => [b, c]
  | b :: c :: d :: bs =>
    match hexValue c, hexValue d with
    | some x, some y => if b = 0x25 then (16 * x + y).toUInt8 :: percentDecode bs else b :: percentDecode (c :: d :: bs)
    | _, _ => b :: percentDecode (c :: d :: bs)

/-- Controls, what is not ASCII, space, quotes, `#`, `<` and `>`. -/
def querySet (c : Char) : Bool := c.toNat < 0x20 ∨ 0x7e < c.toNat ∨ c.toNat ∈ [0x20, 0x22, 0x23, 0x27, 0x3c, 0x3e]

/-- Controls, what is not ASCII, space, the double quote, `#`, `<`, `>`, `?`, `^`, the backtick and braces. -/
def pathSet (c : Char) : Bool :=
  c.toNat < 0x20 ∨ 0x7e < c.toNat ∨ c.toNat ∈ [0x20, 0x22, 0x23, 0x3c, 0x3e, 0x3f, 0x5e, 0x60, 0x7b, 0x7d]

/-! ## The search parameters -/

/-- The names and the values of a query. -/
def searchParams (u : URL) : List (JSString × JSString) :=
  let bytes := (scalars u.search.tail).flatMap String.utf8EncodeChar
  let decode := fun s : List UInt8 => units (utf8Decode (percentDecode (s.map fun b => if b = 0x2b then 0x20 else b)))
  ((bytes.splitOn 0x26).filter (· ≠ [])).map fun s =>
    (decode (s.takeWhile (· ≠ 0x3d)), decode (s.dropWhile (· ≠ 0x3d)).tail)

/-- `u.searchParams.get(name)` -/
def URL.getParam (u : URL) (name : JSString) : Option JSString :=
  ((searchParams u).find? fun p => p.1 = name).map Prod.snd

/-! ## Paths -/

/-- `/` and the backslash. -/
def isSlash (c : Char) : Bool := c = '/' ∨ c.toNat = 0x5c

def isSingleDot (s : JSString) : Bool := toLowerCase s ∈ [ascii ['.'], ascii ['%', '2', 'e']]

def isDoubleDot (s : JSString) : Bool :=
  toLowerCase s ∈ [ascii ['.', '.'], ascii ['.', '%', '2', 'e'], ascii ['%', '2', 'e', '.'],
    ascii ['%', '2', 'e', '%', '2', 'e']]

/-- The segments of a path, without the slash that it may begin with. -/
def pieces (path : List Char) : List JSString :=
  let path := match path with
    | c :: cs => if isSlash c then cs else c :: cs
    | [] => []
  (path.splitOnP isSlash).map fun s => s.flatMap (percentEncode pathSet)

/-- What becomes of the path at the end of each segment. -/
def resolve : List JSString → List JSString → List JSString
  | path, [] => path
  | path, s :: rest =>
    if isDoubleDot s then resolve (if rest = [] then path.dropLast ++ [[]] else path.dropLast) rest
    else if isSingleDot s then resolve (if rest = [] then path ++ [[]] else path) rest
    else resolve (path ++ [s]) rest

/-- The path and the query of an input that has no scheme and no authority. -/
def pathOf (cs : List Char) : List Char := cs.takeWhile fun c => c ≠ '?' ∧ c ≠ '#'

def searchOf (cs : List Char) : JSString :=
  match cs.dropWhile fun c => c ≠ '?' ∧ c ≠ '#' with
  | '?' :: query =>
    let query := (query.takeWhile (· ≠ '#')).flatMap (percentEncode querySet)
    if query = [] then [] else 0x3f :: query
  | _ => []

/-- An input under the base `https://relative.invalid/`. -/
def relative (cs : List Char) : URL where
  protocol := ascii "https:".toList
  hostname := ascii "relative.invalid".toList
  pathname := (resolve [] (pieces (pathOf cs))).flatMap fun s => 0x2f :: s
  search := searchOf cs

/-! ## The parser -/

def isC0OrSpace (c : Char) : Bool := c.toNat ≤ 0x20

/-- What the parser reads of its input. -/
def inputOf (s : JSString) : List Char :=
  (((scalars s).dropWhile isC0OrSpace).reverse.dropWhile isC0OrSpace).reverse.filter
    fun c => c.toNat ∉ [9, 10, 13]

def isSchemeChar (c : Char) : Bool := c.isAlphanum ∨ c = '+' ∨ c = '-' ∨ c = '.'

def hasScheme : List Char → Bool
  | [] => false
  | c :: cs => c.isAlpha ∧ (cs.dropWhile isSchemeChar).head? = some ':'

def hasAuthority : List Char → Bool
  | c :: d :: _ => isSlash c ∧ isSlash d
  | _ => false

/-- `new URL(s, RELATIVE_BASE)`, or nothing where it throws. -/
def newURL (absolute : List Char → Option URL) (s : JSString) : Option URL :=
  let cs := inputOf s
  if hasScheme cs ∨ hasAuthority cs then absolute cs else some (relative cs)

end Media
end WatchParty
