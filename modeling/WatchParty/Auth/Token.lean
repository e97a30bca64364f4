import Mathlib.Data.List.Nodup
import WatchParty.Lib.Binary64

/-!
# The claims of a token

The claims object of a signed token as JSON, and what `token-payload.ts` reads from it.

- `Number`, `Json`: a number keeps the form in which it is written, since not every reader gives it the same value;
- `JsonObject`: an object, which names no member twice;
- `subjectOf`, `versionOf`: the subject and the version, where the claims have one.
-/

namespace WatchParty
namespace Auth

/-- A JSON number as it is written: the digits before the point, those after it, and the exponent. -/
structure Number where
  neg : Bool
  int : ℕ
  frac : List (Fin 10)
  exp : Option ℤ

namespace Number

/-- The value of the digits after the point. -/
def fraction : List (Fin 10) → ℚ
  | [] => 0
  | d :: ds => ((d : ℕ) + fraction ds) / 10

def value (n : Number) : ℚ :=
  (if n.neg then -1 else 1) * (n.int + fraction n.frac) * 10 ^ n.exp.getD 0

/-- The double that `JSON.parse` gives; none where it gives an infinity. -/
def toDouble (n : Number) : Option ℚ := Binary64.nearest n.value

/-- Is it written as an integer? -/
def plain (n : Number) : Bool := n.frac.isEmpty && n.exp.isNone

end Number

/-- A JSON value. -/
inductive Json
  | null
  | bool (b : Bool)
  | num (n : Number)
  | str (s : String)
  | arr (elems : List Json)
  | obj (members : List (String × Json))

mutual
/-- Does `p` hold of every number in the value? -/
def Json.all (p : Number → Bool) : Json → Bool
  | .num n => p n
  | .arr elems => Json.allElems p elems
  | .obj members => Json.allMembers p members
  | _ => true

def Json.allElems (p : Number → Bool) : List Json → Bool
  | [] => true
  | j :: rest => j.all p && Json.allElems p rest

def Json.allMembers (p : Number → Bool) : List (String × Json) → Bool
  | [] => true
  | (_, j) :: rest => j.all p && Json.allMembers p rest
end

/-- A JSON object. -/
structure JsonObject where
  members : List (String × Json)
  nodup : (members.map Prod.fst).Nodup

/-- A member of the object; none where it is absent. -/
def JsonObject.get (o : JsonObject) (name : String) : Option Json := o.members.lookup name

/-- What the planes read of a token's claims to tell whether it is refused. -/
structure TokenPayload where
  sub : Option Json
  jti : Option Json
  ver : Option Json

def TokenPayload.of (o : JsonObject) : TokenPayload := ⟨o.get "sub", o.get "jti", o.get "ver"⟩

/-- A string that is not empty. -/
def nonempty : Option Json → Option String
  | some (.str s) => if s = "" then none else some s
  | _ => none

theorem nonempty_ne {j : Option Json} {s : String} (h : nonempty j = some s) : j = some (.str s) ∧ s ≠ "" := by
  unfold nonempty at h
  split at h
  · split at h
    · cases h
    · rename_i hne
      cases h
      exact ⟨rfl, hne⟩
  · cases h

@[simp] theorem nonempty_str {s : String} (h : s ≠ "") : nonempty (some (.str s)) = some s := by
  simp [nonempty, h]

def subjectOf (payload : TokenPayload) : Option String := nonempty payload.sub

/-- `Number.isInteger`, of what is not negative. -/
def natural (q : ℚ) : Option ℕ := if q.den = 1 ∧ 0 ≤ q then some q.num.toNat else none

theorem natural_eq_some {q : ℚ} {k : ℕ} : natural q = some k ↔ q = k := by
  unfold natural
  constructor
  · intro h
    split at h
    · rename_i hq
      cases h
      have hnum := Rat.num_nonneg.mpr hq.2
      conv_lhs => rw [← Rat.coe_int_num_of_den_eq_one hq.1]
      exact_mod_cast (Int.toNat_of_nonneg hnum).symm
    · cases h
  · rintro rfl
    simp

/-- The version that a token claims; none where the claim is malformed. -/
def versionOf (payload : TokenPayload) : Option ℕ :=
  match payload.ver with
  | none => some 0
  | some .null => some 0
  | some (.num n) => n.toDouble.bind natural
  | some _ => none

/-- The jti that `isRevoked` looks up. A set of strings has nothing but strings, and the empty one is not looked up. -/
def jtiOf (payload : TokenPayload) : Option String := nonempty payload.jti

end Auth
end WatchParty
