import WatchParty.Auth.Token
import WatchParty.Relay.Snapshot

/-!
# The identity that a token gives on each plane

`identityFromClaims` of `relay-go/main.go`, `Claims` and `identity_from_claims` of `relay-rs/src/main.rs`, and the
subject, jti and version that `isRevoked` takes from a payload, for one claims object. The signature has been verified,
and the claims have an integer `exp` that has not passed.

- `Platform` is what the three planes rely on and this repository does not define;
- `nodeIdentity`, `goIdentity`, `rustIdentity`: the decisions, in one form;
- `Uniform`, `RefusedByAll`: the claims that the planes decide alike; `planes_agree` says that they are these, and those
  without a subject.
-/

namespace WatchParty
namespace Relay

open Auth (Json JsonObject Number TokenPayload natural)

/-- How `serde_json` reads a number that is no 64-bit integer (none where it reports that it is out of range), and what
`int(f)` is in Go where an `int` does not hold the value. -/
structure Platform where
  float : Number → Option ℚ
  overflow : ℤ → ℤ

/-- `serde_json::Number`. -/
inductive SerdeNumber
  | posInt (n : ℕ)
  | negInt (n : ℤ)
  | float (f : ℚ)

section Planes

variable (pf : Platform)

def Platform.number (n : Number) : Option SerdeNumber :=
  if n.plain ∧ n.neg = false ∧ n.int < 2 ^ 64 then some (.posInt n.int)
  else if n.plain ∧ n.neg = true ∧ 0 < n.int ∧ n.int ≤ 2 ^ 63 then some (.negInt (-n.int))
  else (pf.float n).map .float

def SerdeNumber.as_f64 : SerdeNumber → Option ℚ
  | .posInt n => Binary64.nearest n
  | .negInt n => Binary64.nearest n
  | .float f => some f

def SerdeNumber.as_i64 : SerdeNumber → Option ℤ
  | .posInt n => if n < 2 ^ 63 then some n else none
  | .negInt n => some n
  | .float _ => none

/-- The double that `serde_json` gives for a number. -/
def Platform.toDouble (n : Number) : Option ℚ := (pf.number n).bind SerdeNumber.as_f64

/-- `int(f)`. -/
def Platform.toInt (f : ℤ) : ℤ := if -2 ^ 63 ≤ f ∧ f < 2 ^ 63 then f else pf.overflow f

/-! ## The go relay -/

structure GoIdentity where
  sub : String
  jti : String
  ver : ℤ
  exp : ℤ

/-- `claims[name].(string)`, or the empty string. -/
def goString : Option Json → String
  | some (.str s) => s
  | _ => ""

/-- `GetExpirationTime`, in seconds. -/
def getExpirationTime (claims : JsonObject) : Option ℤ :=
  match claims.get "exp" with
  | some (.num n) => n.toDouble.bind fun f => if f = 0 then none else some (pf.toInt ⌊f⌋)
  | _ => none

def goVersion : Option Json → Option ℤ
  | none => some 0
  | some (.num n) => (n.toDouble.bind natural).map fun (k : ℕ) => pf.toInt k
  | some _ => none

def identityFromClaims (claims : JsonObject) : Option GoIdentity :=
  let sub := goString (claims.get "sub")
  if sub = "" then none
  else
    (goVersion pf (claims.get "ver")).bind fun ver =>
      (getExpirationTime pf claims).map fun exp => { sub, jti := goString (claims.get "jti"), ver, exp }

/-- `json.Unmarshal` into `jwt.MapClaims`: a number that no double holds is an error. -/
def mapClaims (claims : JsonObject) : Option JsonObject :=
  if claims.members.all (fun m => m.2.all fun n => n.toDouble.isSome) then some claims else none

/-! ## The rust relay -/

/-- `serde_json::Value`, as far as `identity_from_claims` tells its values apart. -/
inductive Value
  | number (n : SerdeNumber)
  | other

structure Claims where
  sub : Option String
  jti : Option String
  ver : Option Value
  exp : Option ℤ

/-- `Option<String>`; none where the member is neither absent, null nor a string. -/
def decodeString : Option Json → Option (Option String)
  | none => some none
  | some .null => some none
  | some (.str s) => some (some s)
  | some _ => none

/-- `Option<serde_json::Value>`. -/
def decodeValue : Option Json → Option (Option Value)
  | none => some none
  | some .null => some none
  | some (.num n) => (pf.number n).map fun v => some (.number v)
  | some j => if j.all fun n => (pf.number n).isSome then some (some .other) else none

/-- `Option<i64>`. -/
def decodeI64 : Option Json → Option (Option ℤ)
  | none => some none
  | some .null => some none
  | some (.num n) => ((pf.number n).bind SerdeNumber.as_i64).map some
  | some _ => none

/-- `Claims::deserialize`. -/
def Claims.deserialize (claims : JsonObject) : Option Claims :=
  (decodeString (claims.get "sub")).bind fun sub =>
    (decodeString (claims.get "jti")).bind fun jti =>
      (decodeValue pf (claims.get "ver")).bind fun ver =>
        (decodeI64 pf (claims.get "exp")).map fun exp => { sub, jti, ver, exp }

/-- The version of the claims. `f as i64` stops at the largest `i64`. -/
def rustVersion : Option Value → Option ℕ
  | none => some 0
  | some (.number n) => (n.as_f64.bind natural).map fun k => min k (2 ^ 63 - 1)
  | some .other => none

def identity_from_claims (c : Claims) : Option Identity :=
  (c.sub.filter (· ≠ "")).bind fun sub =>
    c.exp.bind fun exp =>
      (rustVersion c.ver).map fun (ver : ℕ) => { sub, jti := c.jti, ver, exp, ver_nonneg := by omega }

/-! ## The decisions -/

/-- What a plane takes from a token that it accepts. -/
structure Admitted where
  sub : String
  jti : Option String
  ver : ℤ

/-- The node plane, as `isRevoked` uses `subjectOf` and `versionOf`. -/
def nodeIdentity (claims : JsonObject) : Option Admitted :=
  let payload := TokenPayload.of claims
  (Auth.subjectOf payload).bind fun sub =>
    (Auth.versionOf payload).map fun (ver : ℕ) => { sub, jti := Auth.jtiOf payload, ver }

/-- The go relay. The empty string stands for no jti. -/
def goIdentity (claims : JsonObject) : Option Admitted :=
  ((mapClaims claims).bind (identityFromClaims pf)).map fun id =>
    { sub := id.sub, jti := if id.jti = "" then none else some id.jti, ver := id.ver }

/-- The rust relay. -/
def rustIdentity (claims : JsonObject) : Option Admitted :=
  ((Claims.deserialize pf claims).bind identity_from_claims).map fun id => { sub := id.sub, jti := id.jti, ver := id.ver }

/-- The claims of a token with an integer `exp` that has not passed. -/
structure SignedClaims extends JsonObject where
  exp : Number
  exp_eq : toJsonObject.get "exp" = some (.num exp)
  unexpired : ∃ k : ℕ, 0 < k ∧ exp.value = k

/-- The planes accept or refuse the claims alike, and take the same from them. -/
def Agree (c : SignedClaims) : Prop :=
  nodeIdentity c.toJsonObject = goIdentity pf c.toJsonObject ∧
    nodeIdentity c.toJsonObject = rustIdentity pf c.toJsonObject

/-! ## What each plane decides -/

/-- The version by a reading of numbers. -/
def versionIn (read : Number → Option ℚ) : Option Json → Option ℕ
  | none => some 0
  | some .null => some 0
  | some (.num n) => (read n).bind natural
  | some _ => none

/-- A version that is there and is no natural number. -/
structure Malformed (read : Number → Option ℚ) (ver : Option Json) : Prop where
  present : ver ≠ none
  notNull : ver ≠ some .null
  number : ∀ n, ver = some (.num n) → ∀ k : ℕ, read n ≠ some (k : ℚ)

theorem bind_natural {q : Option ℚ} {k : ℕ} : q.bind natural = some k ↔ q = some (k : ℚ) := by
  cases q with
  | none => simp
  | some q => simp [Auth.natural_eq_some]

theorem versionIn_eq_none {read : Number → Option ℚ} {ver : Option Json} :
    versionIn read ver = none ↔ Malformed read ver := by
  constructor
  · intro h
    refine ⟨?_, ?_, ?_⟩
    · rintro rfl
      cases h
    · rintro rfl
      cases h
    · rintro n rfl k hk
      rw [versionIn, bind_natural.mpr hk] at h
      cases h
  · intro h
    unfold versionIn
    split
    · exact absurd rfl h.present
    · exact absurd rfl h.notNull
    · rename_i n
      cases hr : (read n).bind natural with
      | none => rfl
      | some k => exact absurd (bind_natural.mp hr) (h.number n rfl k)
    · rfl

theorem versionOf_eq (payload : TokenPayload) :
    Auth.versionOf payload = versionIn Number.toDouble payload.ver := by
  unfold Auth.versionOf versionIn
  split <;> simp_all

theorem goVersion_eq {ver : Option Json} (h : ver ≠ some .null) :
    goVersion pf ver = (versionIn Number.toDouble ver).map fun (k : ℕ) => pf.toInt k := by
  unfold goVersion versionIn
  split
  · simp [Platform.toInt]
  · rfl
  · rename_i j hj
    cases j with
    | null => exact absurd rfl h
    | num n => exact absurd rfl (hj n)
    | _ => rfl

theorem rustVersion_eq (ver : Option Json) :
    (decodeValue pf ver).bind rustVersion = (versionIn pf.toDouble ver).map fun k => min k (2 ^ 63 - 1) := by
  unfold decodeValue versionIn
  split
  · rfl
  · rfl
  · rename_i n
    simp only [Platform.toDouble]
    cases pf.number n <;> rfl
  · rename_i j hnull hnum
    split
    · cases j with
      | null => exact absurd rfl hnull
      | num n => exact absurd rfl (hnum n)
      | _ => rfl
    · cases j with
      | null => exact absurd rfl hnull
      | num n => exact absurd rfl (hnum n)
      | _ => rfl

theorem goString_nonempty (j : Option Json) :
    (if goString j = "" then none else some (goString j)) = Auth.nonempty j := by
  unfold goString Auth.nonempty
  split <;> simp

/-- What a member of type `Option<String>` may be. -/
def StringOrNull (j : Option Json) : Prop := j = none ∨ j = some .null ∨ ∃ s, j = some (.str s)

theorem decodeString_eq_none {j : Option Json} : decodeString j = none ↔ ¬StringOrNull j := by
  unfold decodeString StringOrNull
  split <;> simp_all

theorem decodeString_eq_nonempty {j : Option Json} :
    decodeString j = some (Auth.nonempty j) ↔ StringOrNull j ∧ j ≠ some (.str "") := by
  unfold decodeString StringOrNull Auth.nonempty
  split
  · simp
  · simp
  · rename_i s
    by_cases hs : s = "" <;> simp [hs]
  · rename_i j h1 h2
    cases j with
    | null => exact absurd rfl h1
    | str s => exact absurd rfl (h2 s)
    | _ => simp

/-! ## The expiry -/

namespace SignedClaims

variable (c : SignedClaims)

/-- An expiry that is written as an integer has no sign. -/
theorem exp_pos (h : c.exp.plain = true) : c.exp.neg = false := by
  obtain ⟨k, hk, hv⟩ := c.unexpired
  by_contra hneg
  rw [Bool.not_eq_false] at hneg
  simp only [Number.plain, Bool.and_eq_true, List.isEmpty_iff, Option.isNone_iff_eq_none] at h
  simp only [Number.value, hneg, if_true, h.1, h.2, Number.fraction, Option.getD_none, zpow_zero, add_zero, mul_one,
    neg_mul, one_mul] at hv
  have hk' : (0 : ℚ) < k := by exact_mod_cast hk
  have hint : (0 : ℚ) ≤ c.exp.int := Nat.cast_nonneg _
  linarith

theorem decodeI64_exp :
    decodeI64 pf (c.get "exp") =
      if c.exp.plain = true ∧ c.exp.int < 2 ^ 63 then some (some (c.exp.int : ℤ)) else none := by
  rw [c.exp_eq]
  simp only [decodeI64, Platform.number]
  by_cases hp : c.exp.plain = true
  · have hneg := c.exp_pos hp
    by_cases h64 : c.exp.int < 2 ^ 64
    · simp only [hp, hneg, h64, and_self, if_true, Option.bind_some, SerdeNumber.as_i64, true_and]
      split <;> rfl
    · have h63 : ¬c.exp.int < 2 ^ 63 := by omega
      simp only [hp, hneg, h64, h63, and_false, Bool.false_eq_true, false_and, if_false]
      cases pf.float c.exp <;> rfl
  · simp only [hp, false_and, if_false, Bool.false_eq_true]
    cases pf.float c.exp <;> rfl

/-- A member of claims whose numbers are doubles has only such numbers. -/
theorem readable_exp (h : c.members.all (fun m => m.2.all fun n => n.toDouble.isSome) = true) :
    ∃ e, getExpirationTime pf c.toJsonObject = some e := by
  have hget := c.exp_eq
  obtain ⟨k, hk, hv⟩ := c.unexpired
  have hmem : ("exp", Json.num c.exp) ∈ c.members := by
    obtain ⟨l₁, l₂, hl, -⟩ := List.lookup_eq_some_iff.mp hget
    rw [hl]
    exact List.mem_append_right _ List.mem_cons_self
  have hsome := List.all_eq_true.mp h _ hmem
  simp only [Json.all] at hsome
  obtain ⟨f, hf⟩ := Option.isSome_iff_exists.mp hsome
  have hone : (1 : ℚ) ≤ c.exp.value := by
    rw [hv]
    exact_mod_cast hk
  have hpos : f ≠ 0 := (Binary64.nearest_pos hone hf).ne'
  refine ⟨pf.toInt ⌊f⌋, ?_⟩
  simp [getExpirationTime, hget, hf, hpos]

end SignedClaims

/-! ## Agreement -/

section Agreement

variable (c : SignedClaims)

/-- The claims have no subject. -/
def NoSubject : Prop := Auth.nonempty (c.get "sub") = none

/-- Every plane refuses the version, or the rust relay what it cannot decode. -/
structure RefusedByAll : Prop where
  node : Malformed Number.toDouble (c.get "ver")
  rust : Malformed pf.toDouble (c.get "ver") ∨ ¬StringOrNull (c.get "jti") ∨
    ¬(c.exp.plain = true ∧ c.exp.int < 2 ^ 63)

/-- The version is absent, or a natural number below `2 ^ 63` that every plane reads alike; the jti is absent, null or a
string that is not empty; the expiry is written as an `i64`; and no number is out of range. -/
structure Uniform : Prop where
  ver : c.get "ver" = none ∨ ∃ n, ∃ k : ℕ, c.get "ver" = some (.num n) ∧ k < 2 ^ 63 ∧ n.toDouble = some (k : ℚ) ∧
    pf.toDouble n = some (k : ℚ)
  jti : StringOrNull (c.get "jti") ∧ c.get "jti" ≠ some (.str "")
  exp : c.exp.plain = true ∧ c.exp.int < 2 ^ 63
  readable : c.members.all (fun m => m.2.all fun n => n.toDouble.isSome) = true

theorem node_of_noSubject (h : NoSubject c) : nodeIdentity c.toJsonObject = none := by
  unfold nodeIdentity
  simp only [Auth.subjectOf, TokenPayload.of]
  rw [show Auth.nonempty (c.get "sub") = none from h]
  rfl

theorem go_of_noSubject (h : NoSubject c) : goIdentity pf c.toJsonObject = none := by
  have hs := goString_nonempty (c.get "sub")
  rw [show Auth.nonempty (c.get "sub") = none from h] at hs
  unfold goIdentity mapClaims
  split
  · simp only [Option.bind_some, identityFromClaims]
    split
    · rfl
    · rename_i hne
      rw [if_neg hne] at hs
      cases hs
  · rfl

theorem rust_of_noSubject (h : NoSubject c) : rustIdentity pf c.toJsonObject = none := by
  have hsub : ∀ sub, decodeString (c.get "sub") = some sub → sub.filter (· ≠ "") = none := by
    intro sub hsub
    unfold NoSubject at h
    unfold decodeString at hsub
    unfold Auth.nonempty at h
    split at hsub <;> cases hsub
    · rfl
    · rfl
    · rename_i s hs
      rw [hs] at h
      by_cases he : s = ""
      · simp [he]
      · simp [he] at h
  unfold rustIdentity Claims.deserialize
  cases hd : decodeString (c.get "sub") with
  | none => rfl
  | some sub =>
    cases decodeString (c.get "jti") with
    | none => rfl
    | some jti =>
      cases decodeValue pf (c.get "ver") with
      | none => rfl
      | some ver =>
        cases decodeI64 pf (c.get "exp") with
        | none => rfl
        | some exp =>
          have hf := hsub sub hd
          simp only [Option.bind_some, Option.map_some, identity_from_claims, hf, Option.bind_none, Option.map_none]

variable {s : String}

theorem node_of_subject (h : Auth.nonempty (c.get "sub") = some s) :
    nodeIdentity c.toJsonObject =
      (versionIn Number.toDouble (c.get "ver")).map fun k => ⟨s, Auth.nonempty (c.get "jti"), k⟩ := by
  simp only [nodeIdentity, Auth.subjectOf, TokenPayload.of, versionOf_eq, Auth.jtiOf, h, Option.bind_some]

theorem go_of_subject (h : Auth.nonempty (c.get "sub") = some s) :
    goIdentity pf c.toJsonObject =
      if c.members.all (fun m => m.2.all fun n => n.toDouble.isSome) = true then
        (goVersion pf (c.get "ver")).map fun v => ⟨s, Auth.nonempty (c.get "jti"), v⟩
      else none := by
  have hs := goString_nonempty (c.get "sub")
  rw [h] at hs
  unfold goIdentity mapClaims
  split
  · rename_i hread
    obtain ⟨e, he⟩ := c.readable_exp pf hread
    simp only [Option.bind_some, identityFromClaims]
    split at hs
    · cases hs
    · rename_i hne
      rw [if_neg hne, he]
      cases goVersion pf (c.get "ver") with
      | none => rfl
      | some v => simp [Option.some.inj hs, goString_nonempty]
  · rfl

theorem rust_of_subject (h : Auth.nonempty (c.get "sub") = some s) :
    rustIdentity pf c.toJsonObject =
      if c.exp.plain = true ∧ c.exp.int < 2 ^ 63 then
        (decodeString (c.get "jti")).bind fun jti =>
          (versionIn pf.toDouble (c.get "ver")).map fun k => ⟨s, jti, (min k (2 ^ 63 - 1) : ℕ)⟩
      else none := by
  obtain ⟨hsub, hne⟩ := Auth.nonempty_ne h
  have hv := rustVersion_eq pf (c.get "ver")
  unfold rustIdentity Claims.deserialize
  rw [hsub, c.decodeI64_exp pf, show decodeString (some (.str s)) = some (some s) from rfl, Option.bind_some]
  cases decodeString (c.get "jti") with
  | none => split <;> rfl
  | some jti =>
    cases hd : decodeValue pf (c.get "ver") with
    | none =>
      rw [hd, Option.bind_none] at hv
      cases hr : versionIn pf.toDouble (c.get "ver") with
      | none => split <;> rfl
      | some k =>
        rw [hr] at hv
        cases hv
    | some ver =>
      rw [hd, Option.bind_some] at hv
      split
      · simp only [Option.bind_some, Option.map_some, identity_from_claims, hv]
        cases versionIn pf.toDouble (c.get "ver") <;> simp [Option.filter_some, hne]
      · rfl

/-- What `i64` stops at is no double, so a version that comes out the same was the same. -/
theorem eq_of_min {n : Number} {k m : ℕ} (hn : n.toDouble = some (k : ℚ)) (h : k = min m (2 ^ 63 - 1)) :
    k = m ∧ k < 2 ^ 63 := by
  have hne : k ≠ 2 ^ 63 - 1 := by
    rintro rfl
    rcases Binary64.nearest_even hn with hle | ⟨j, hj⟩
    · norm_num at hle
    · have hodd : ((2 ^ 63 - 1 : ℕ) : ℤ) = 2 * j := by exact_mod_cast hj
      omega
  omega

/-- The planes accept the same from claims that they decide alike. -/
theorem agree_of_uniform (h : Auth.nonempty (c.get "sub") = some s) (hu : Uniform pf c) : Agree pf c := by
  have hjti := decodeString_eq_nonempty.mpr hu.jti
  unfold Agree
  rw [node_of_subject c h, go_of_subject pf c h, rust_of_subject pf c h, if_pos hu.readable, if_pos hu.exp, hjti]
  rcases hu.ver with hver | ⟨n, k, hver, hk, hnode, hrust⟩
  · rw [hver]
    exact ⟨rfl, rfl⟩
  · rw [hver, goVersion_eq pf (by simp)]
    have hin : versionIn Number.toDouble (some (.num n)) = some k := bind_natural.mpr hnode
    have hin' : versionIn pf.toDouble (some (.num n)) = some k := bind_natural.mpr hrust
    have hint : pf.toInt k = k := if_pos (by omega)
    have hmin : min k (2 ^ 63 - 1) = k := by omega
    simp only [hin, hin', Option.map_some, Option.bind_some, hint, hmin, and_self]

/-- The planes refuse together the claims that they all refuse. -/
theorem agree_of_refused (h : Auth.nonempty (c.get "sub") = some s) (hr : RefusedByAll pf c) : Agree pf c := by
  unfold Agree
  rw [node_of_subject c h, go_of_subject pf c h, rust_of_subject pf c h, goVersion_eq pf hr.node.notNull,
    versionIn_eq_none.mpr hr.node]
  refine ⟨by split <;> rfl, ?_⟩
  split
  · rename_i hexp
    rcases hr.rust with hver | hjti | hne
    · rw [versionIn_eq_none.mpr hver]
      cases decodeString (c.get "jti") <;> rfl
    · rw [decodeString_eq_none.mpr hjti]
      rfl
    · exact absurd hexp hne
  · rfl

/-- Claims with a subject that the planes decide alike are uniform, or refused by all. -/
theorem uniform_of_agree (h : Auth.nonempty (c.get "sub") = some s) (ha : Agree pf c) :
    RefusedByAll pf c ∨ Uniform pf c := by
  unfold Agree at ha
  rw [node_of_subject c h, go_of_subject pf c h, rust_of_subject pf c h] at ha
  obtain ⟨hgo, hrust⟩ := ha
  cases hnode : versionIn Number.toDouble (c.get "ver") with
  | none =>
    -- the node plane refuses, so the rust relay does
    left
    refine ⟨versionIn_eq_none.mp hnode, ?_⟩
    rw [hnode, Option.map_none] at hrust
    split at hrust
    · cases hj : decodeString (c.get "jti") with
      | none => exact Or.inr (Or.inl (decodeString_eq_none.mp hj))
      | some jti =>
        rw [hj, Option.bind_some] at hrust
        exact Or.inl (versionIn_eq_none.mp (Option.map_eq_none_iff.mp hrust.symm))
    · rename_i hne
      exact Or.inr (Or.inr hne)
  | some k =>
    -- the node plane accepts, so the others do, and take the same
    right
    rw [hnode, Option.map_some] at hgo hrust
    split at hgo
    · rename_i hread
      split at hrust
      · rename_i hexp
        cases hj : decodeString (c.get "jti") with
        | none =>
          rw [hj] at hrust
          cases hrust
        | some jti =>
          rw [hj, Option.bind_some] at hrust
          obtain ⟨m, hm, heq⟩ := Option.map_eq_some_iff.mp hrust.symm
          obtain ⟨-, rfl, hkm⟩ := Admitted.mk.inj heq
          have hmin : k = min m (2 ^ 63 - 1) := by exact_mod_cast hkm.symm
          refine ⟨?_, decodeString_eq_nonempty.mp hj, hexp, hread⟩
          cases hver : c.get "ver" with
          | none => exact Or.inl rfl
          | some j =>
            rw [hver] at hnode hgo hm
            cases j with
            | null => cases hgo
            | num n =>
              have hread' := bind_natural.mp hnode
              obtain ⟨hkm, hlt⟩ := eq_of_min hread' hmin
              exact Or.inr ⟨n, k, rfl, hlt, hread', by rw [hkm]; exact bind_natural.mp hm⟩
            | _ => cases hnode
      · cases hrust
    · cases hgo

end Agreement

/-- **The planes decide a token alike exactly if** its claims have no subject, or every plane refuses them, or they are
uniform. -/
theorem planes_agree (c : SignedClaims) : Agree pf c ↔ NoSubject c ∨ RefusedByAll pf c ∨ Uniform pf c := by
  cases hs : Auth.nonempty (c.get "sub") with
  | none =>
    refine ⟨fun _ => Or.inl hs, fun _ => ?_⟩
    unfold Agree
    rw [node_of_noSubject c hs, go_of_noSubject pf c hs, rust_of_noSubject pf c hs]
    exact ⟨rfl, rfl⟩
  | some s =>
    constructor
    · exact fun ha => Or.inr (uniform_of_agree pf c hs ha)
    · rintro (hn | hr | hu)
      · rw [NoSubject, hs] at hn
        cases hn
      · exact agree_of_refused pf c hs hr
      · exact agree_of_uniform pf c hs hu

end Planes

/-- A token whose version is null. -/
def nullVersion : SignedClaims where
  members := [("sub", .str "ann"), ("ver", .null), ("exp", .num ⟨false, 4102444800, [], none⟩)]
  nodup := by decide
  exp := ⟨false, 4102444800, [], none⟩
  exp_eq := rfl
  unexpired := ⟨4102444800, by norm_num, by norm_num [Number.value, Number.fraction]⟩

/-- Two planes accept it and one does not. -/
theorem null_version_divides : ¬∀ pf c, Agree pf c := by
  intro h
  have hgo : goIdentity ⟨Number.toDouble, fun _ => -2 ^ 63⟩ nullVersion.toJsonObject = none := by
    unfold goIdentity mapClaims
    split <;> rfl
  have hnode : nodeIdentity nullVersion.toJsonObject = some ⟨"ann", none, 0⟩ := rfl
  have hagree := (h ⟨Number.toDouble, fun _ => -2 ^ 63⟩ nullVersion).1
  rw [hgo, hnode] at hagree
  cases hagree

end Relay
end WatchParty
