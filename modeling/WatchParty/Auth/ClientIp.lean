import WatchParty.Account.Credentials

/-!
# The key of a caller

`isInfrastructureAddress` and `clientIpFrom` of `auth/rate-bucket.ts`, on the headers of a request.

- `parts` are the entries of a forwarding header; `parts_join` is what becomes of them when more text is put in front;
- `key_unforgeable`: what a caller puts in front of the hops' own entries does not move the key.
-/

namespace WatchParty
namespace Auth
namespace ClientIp

open Account (trim)

/-- What is left of `cs` after the prefix `p`, if it has it. -/
def after? (p : String) (cs : List Char) : Option (List Char) := cs.dropPrefix? p.toList

def startsWith (p : String) (cs : List Char) : Bool := (after? p cs).isSome

/-- `(1[6-9]|2\d|3[01])\.` -/
def from16To31 : List Char → Bool
  | a :: b :: '.' :: _ =>
    (a = '1' ∧ '6' ≤ b ∧ b ≤ '9') ∨ (a = '2' ∧ b.isDigit) ∨ (a = '3' ∧ (b = '0' ∨ b = '1'))
  | _ => false

/-- `(6[4-9]|[7-9]\d|1[01]\d|12[0-7])\.` -/
def from64To127 : List Char → Bool
  | a :: b :: '.' :: _ => (a = '6' ∧ '4' ≤ b ∧ b ≤ '9') ∨ ('7' ≤ a ∧ a ≤ '9' ∧ b.isDigit)
  | '1' :: b :: c :: '.' :: _ => ((b = '0' ∨ b = '1') ∧ c.isDigit) ∨ (b = '2' ∧ '0' ≤ c ∧ c ≤ '7')
  | _ => false

/-- The address is of a hop. -/
def isInfrastructureAddress (toLowerCase : String → String) (raw : String) : Bool :=
  let lower := (toLowerCase (trim raw)).toList
  let ip := (after? "::ffff:" lower).getD lower
  if ip = [] then true
  else if ip = "::1".toList ∨ ip = "unknown".toList then true
  else if startsWith "10." ip ∨ startsWith "127." ip then true
  else if startsWith "192.168." ip then true
  else if (after? "172." ip).any from16To31 then true
  else if startsWith "169.254." ip then true
  else if (after? "100." ip).any from64To127 then true
  else if startsWith "fc" ip ∨ startsWith "fd" ip then true
  else if startsWith "fe8" ip ∨ startsWith "fe9" ip ∨ startsWith "fea" ip ∨ startsWith "feb" ip then true
  else false

/-- A header, which may have come more than once. -/
inductive Header
  | one (s : String)
  | many (ss : List String)
  deriving DecidableEq, Repr

/-- What `clientIpFrom` reads of a request. -/
structure Request where
  remoteAddress : Option String
  cfConnectingIp : Option Header
  xForwardedFor : Option Header

/-- `ss.join(',')` -/
def join (ss : List String) : String := String.ofList ([','].intercalate (ss.map String.toList))

namespace Request

/-- An empty address is none. -/
def peer (req : Request) : String := ((req.remoteAddress.filter (· ≠ "")).getD "unknown")

def fromEdge (req : Request) : Option String :=
  match req.cfConnectingIp with
  | some (.many ss) => ss.head?
  | some (.one s) => some s
  | none => none

def raw (req : Request) : Option String :=
  match req.xForwardedFor with
  | some (.many ss) => some (join ss)
  | some (.one s) => some s
  | none => none

end Request

/-- The entries of a header that are not blank. -/
def parts (raw : String) : List String :=
  (((raw.toList.splitOn ',').map String.ofList).map trim).filter (· ≠ "")

section Key

variable (toLowerCase : String → String)

/-- The last entry of a caller. -/
def rightmost (entries : List String) : Option String :=
  entries.reverse.find? fun p => !isInfrastructureAddress toLowerCase p

def clientIpFrom (req : Request) (trustProxy : Bool) : String :=
  if trustProxy = false then req.peer
  else
    match req.fromEdge.filter fun edge => trim edge ≠ "" with
    | some edge => trim edge
    | none => (rightmost toLowerCase ((req.raw.map parts).getD [])).getD req.peer

def LOCAL_ENVS : List String := ["development", "test"]

def clientIp (nodeEnv : Option String) (req : Request) : String :=
  clientIpFrom toLowerCase req (!LOCAL_ENVS.contains (nodeEnv.getD ""))

end Key

/-! ## Text in front -/

/-- The entries of two texts with a comma between them. -/
theorem parts_comma (cs cs' : List Char) :
    parts (String.ofList (cs ++ ',' :: cs')) = parts (String.ofList cs) ++ parts (String.ofList cs') := by
  unfold parts
  simp only [String.toList_ofList]
  rw [List.splitOn_append_cons_self, List.map_append, List.map_append, List.filter_append]

/-- The entries of what is put in front come before the entries of the rest. -/
theorem parts_join {own : List String} (h : own ≠ []) (front : List String) :
    ∃ ps, parts (join (front ++ own)) = ps ++ parts (join own) := by
  induction front with
  | nil => exact ⟨[], rfl⟩
  | cons s front ih =>
    obtain ⟨ps, hps⟩ := ih
    refine ⟨parts s ++ ps, ?_⟩
    have hne : (front ++ own).map String.toList ≠ [] := by simp [h]
    have hjoin : join (s :: front ++ own) = String.ofList (s.toList ++ ',' :: (join (front ++ own)).toList) := by
      obtain ⟨x, xs, hx⟩ := List.exists_cons_of_ne_nil hne
      simp only [join, List.cons_append, List.map_cons, hx, String.toList_ofList]
      rfl
    rw [hjoin, parts_comma, String.ofList_toList, String.ofList_toList, hps, List.append_assoc]

/-- The entries that hops wrote are what they wrote. -/
theorem parts_own {own : List String} (h : own ≠ []) (hc : ∀ e ∈ own, ',' ∉ e.toList) :
    parts (join own) = (own.map trim).filter (· ≠ "") := by
  have hsplit : ([','].intercalate (own.map String.toList)).splitOn ',' = own.map String.toList := by
    apply List.splitOn_intercalate
    · intro l hl
      obtain ⟨e, he, rfl⟩ := List.mem_map.mp hl
      exact hc e he
    · simpa using h
  have hid : String.ofList ∘ String.toList = id := funext fun _ => String.ofList_toList
  have hback : (own.map String.toList).map String.ofList = own := by rw [List.map_map, hid, List.map_id]
  unfold parts join
  rw [String.toList_ofList, hsplit, hback]

section Key

variable (toLowerCase : String → String)

/-- Entries in front do not matter where there is a caller's among the rest. -/
theorem rightmost_append {entries : List String} (h : (rightmost toLowerCase entries).isSome = true) (ps : List String) :
    rightmost toLowerCase (ps ++ entries) = rightmost toLowerCase entries := by
  unfold rightmost at h ⊢
  rw [List.reverse_append, List.find?_append]
  obtain ⟨p, hp⟩ := Option.isSome_iff_exists.mp h
  rw [hp, Option.some_or]

/-- **A caller cannot choose its key.** Behind a proxy, and with no `cf-connecting-ip`, the key is the rightmost entry of
the deployment's own hops that is no hop's address, whatever lines of the header the caller has put in front; with a
`cf-connecting-ip` that is not blank it is that; and without a proxy it is the peer. -/
theorem key_unforgeable (req : Request) :
    (∀ own, (∀ e ∈ own, ',' ∉ e.toList) →
      (∃ e ∈ own, trim e ≠ "" ∧ isInfrastructureAddress toLowerCase (trim e) = false) →
        ∀ front, req.cfConnectingIp = none → req.raw = some (join (front ++ own)) →
          some (clientIpFrom toLowerCase req true) = rightmost toLowerCase ((own.map trim).filter (· ≠ ""))) ∧
      (∀ edge, req.fromEdge = some edge → trim edge ≠ "" → clientIpFrom toLowerCase req true = trim edge) ∧
      clientIpFrom toLowerCase req false = req.peer := by
  refine ⟨fun own hc haddr front hcf hraw => ?_, fun edge hedge hne => ?_, rfl⟩
  · have hown : own ≠ [] := by
      obtain ⟨e, he, -⟩ := haddr
      exact List.ne_nil_of_mem he
    have hsome : (rightmost toLowerCase ((own.map trim).filter (· ≠ ""))).isSome = true := by
      obtain ⟨e, he, hne, hno⟩ := haddr
      unfold rightmost
      rw [List.find?_isSome]
      exact ⟨trim e, by simpa using ⟨⟨e, he, rfl⟩, hne⟩, by simp [hno]⟩
    obtain ⟨ps, hps⟩ := parts_join hown front
    have hkey : rightmost toLowerCase (parts (join (front ++ own))) =
        rightmost toLowerCase ((own.map trim).filter (· ≠ "")) := by
      rw [hps, parts_own hown hc]
      exact rightmost_append toLowerCase hsome ps
    obtain ⟨key, hk⟩ := Option.isSome_iff_exists.mp hsome
    unfold clientIpFrom Request.fromEdge
    rw [hcf, hraw, Option.map_some, Option.getD_some, hkey, hk]
    rfl
  · have hkeep : (some edge).filter (fun edge => decide (trim edge ≠ "")) = some edge := by simp [hne]
    unfold clientIpFrom
    rw [hedge, hkeep]
    rfl

end Key

/-- A caller who has put a forged entry in front of its own address, behind a hop. -/
theorem key_unforgeable_forged :
    some (clientIpFrom String.toLower
        ⟨some "10.0.0.1", none, some (.one "evil, 198.51.100.7, 10.201.4.31")⟩ true) = some "198.51.100.7" := by
  have hkey := (key_unforgeable String.toLower ⟨some "10.0.0.1", none, some (.one "evil, 198.51.100.7, 10.201.4.31")⟩).1
    [" 198.51.100.7", " 10.201.4.31"] (by decide +kernel) (by decide +kernel) ["evil"] rfl (by decide +kernel)
  rw [hkey]
  decide +kernel

end ClientIp
end Auth
end WatchParty
