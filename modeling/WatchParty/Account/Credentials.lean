import Mathlib

/-!
# Names, addresses and passwords

`credentialsOrThrow` of `auth.service.ts` and `username.ts`, on the characters of a string.

- `Platform` is what the libraries of the platform make of a string;
- `credentialsOrThrow` is the check that both doors into the table of users make;
- `usernameCandidates` are the names that an account without a form is offered, one after the other.
-/

namespace WatchParty
namespace Account

/-- What the platform makes of a string: its lower case, as JavaScript and the database have it, its compatibility
decomposition, and the hash of a password with a salt and what it is compared to. -/
structure Platform where
  toLowerCase : String → String
  lower : String → String
  normalize : String → String
  hash : String → String → String
  compare : String → String → Bool

/-- What `\s` matches and `trim` takes away. -/
def isSpace (c : Char) : Bool :=
  (9 ≤ c.toNat ∧ c.toNat ≤ 13) ∨ (0x2000 ≤ c.toNat ∧ c.toNat ≤ 0x200a) ∨
    c.toNat ∈ [0x20, 0xa0, 0x1680, 0x2028, 0x2029, 0x202f, 0x205f, 0x3000, 0xfeff]

def trim (s : String) : String :=
  String.ofList (((s.toList.dropWhile isSpace).reverse.dropWhile isSpace).reverse)

/-- The length in code units. -/
def units (s : String) : ℕ := (s.toList.map fun c => if c.toNat < 0x10000 then 1 else 2).sum

/-- `/^[a-zA-Z0-9_.-]{3,32}$/` -/
def usernameLooksRight (s : String) : Bool :=
  3 ≤ s.toList.length ∧ s.toList.length ≤ 32 ∧
    s.toList.all (fun c => c.isAlphanum ∨ c = '_' ∨ c = '.' ∨ c = '-') = true

/-- Of what the parts of an address are made. -/
def inAddress (cs : List Char) : Bool := !cs.isEmpty && cs.all fun c => c ≠ '@' && !isSpace c

/-- `/^[^@\s]+@[^@\s.]+\.[^@\s]+$/` -/
def emailLooksRight (s : String) : Bool :=
  match s.toList.span (· ≠ '@') with
  | (name, _ :: domain) =>
    match domain.span (· ≠ '.') with
    | (host, _ :: rest) => inAddress name && inAddress host && inAddress rest
    | (_, []) => false
  | (_, []) => false

/-- The name and the address that an account is opened with, or the message of the refusal. -/
def credentialsOrThrow (P : Platform) (username email password : String) : Except String (String × String) :=
  let cleanUsername := trim username
  let cleanEmail := P.toLowerCase (trim email)
  if usernameLooksRight cleanUsername = false then
    .error "Names are 3-32 characters: letters, numbers, dot, dash, underscore"
  else if emailLooksRight cleanEmail = false then .error "That email address does not look right"
  else if "@guest.invalid".toList.isSuffixOf cleanEmail.toList then .error "Use an address you can actually receive"
  else if units password < 8 then .error "Passwords are at least 8 characters"
  else .ok (cleanUsername, cleanEmail)

def MIN : ℕ := 3
def MAX : ℕ := 20

/-- Every run of other characters becomes one underscore. -/
def underscored : List Char → List Char
  | [] => []
  | c :: cs =>
    if ('a' ≤ c ∧ c ≤ 'z') ∨ c.isDigit then c :: underscored cs
    else
      match underscored cs with
      | '_' :: rest => '_' :: rest
      | rest => '_' :: rest

def dropUnderscores (cs : List Char) : List Char := (cs.reverse.dropWhile (· = '_')).reverse

def slugifyUsername (P : Platform) (input : String) : String :=
  let marked := (P.normalize input).toList.filter fun c => ¬(0x300 ≤ c.toNat ∧ c.toNat ≤ 0x36f)
  let slug := underscored (P.toLowerCase (String.ofList marked)).toList
  String.ofList (dropUnderscores ((dropUnderscores (slug.dropWhile (· = '_'))).take MAX))

def usernameBase (P : Platform) (name : Option String) (email : String) : String :=
  let fromName := (name.map (slugifyUsername P)).getD ""
  if MIN ≤ fromName.length then fromName
  else
    let fromEmail := slugifyUsername P (String.ofList (email.toList.takeWhile (· ≠ '@')))
    if MIN ≤ fromEmail.length then fromEmail else "watcher"

/-- Four digits. -/
def padded (n : ℕ) : String :=
  String.ofList [Nat.digitChar (n / 1000 % 10), Nat.digitChar (n / 100 % 10), Nat.digitChar (n / 10 % 10),
    Nat.digitChar (n % 10)]

/-- The candidates in order: the base, and then the base with a suffix that is drawn at random. -/
def usernameCandidates (base : String) (rand : ℕ → ℕ) : ℕ → String
  | 0 => base
  | n + 1 => String.ofList (base.toList.take (MAX - 4 - 1)) ++ "_" ++ padded (rand n)

end Account
end WatchParty
