import Mathlib.Logic.Function.Basic
import WatchParty.Lib.Machine

/-!
# The session of a browser

`contexts/AuthContext.tsx`, `services/api.ts` and the session of `contexts/SocketContext.tsx` in the frontend: the pages
of one browser, each with the user it shows, the storage they share, the storage events on their way, the requests and
their answers, and the frame that tells a page's socket that its session ended. The server is what `auth.controller.ts`
does to the tokens that this browser holds; what else may end a token is an action of its own.

A page's code runs to its end before another page's does. The interceptors of axios run when a request has been made and
the code that made it is over, as they do where they are registered with no options; they could also be `synchronous`,
which is a parameter.

- `Session.step`: one step of a page, of the server or of the network;
- `Session.machine`: their runs, from a browser with nothing stored.
-/

namespace WatchParty
namespace Session

/-- A token, by its `jti` and its subject. -/
structure Token where
  jti : ℕ
  sub : String
  deriving DecidableEq, Repr

/-- The fields of the client's `User` that the session reads. -/
structure User where
  id : String
  token : Option Token
  deriving DecidableEq, Repr

/-- What is stored under `user`: a user, or a text that is not one. -/
inductive Item
  | user (u : User)
  | malformed
  deriving DecidableEq, Repr

/-- The session's token, as the request layer reads it. -/
def readStoredToken : Option Item → Option Token
  | some (.user u) => u.token
  | _ => none

/-! ## Requests -/

/-- The requests of the client, by what they do to the session. `signIn` is login, register and guest; `setPassword`
may carry the token of a re-authentication; `other` is any endpoint behind the guard. -/
inductive Request
  | signIn (id : String)
  | refresh
  | setPassword (elevated : Option Token)
  | googleLinkStart
  | claim
  | logout
  | logoutEverywhere
  | other
  deriving DecidableEq, Repr

/-- The requests that `logout` makes. -/
def Request.signsOut : Request → Bool
  | .logout => true
  | .logoutEverywhere => true
  | _ => false

/-- The request interceptor: no token where none is needed, a token that was set explicitly, or the stored one. -/
def Request.header (stored : Option Token) : Request → Option Token
  | .signIn _ => none
  | .setPassword (some elevated) => some elevated
  | _ => stored

/-- An answer, as the response interceptor tells them apart: `refused` is a 401, `failed` any other error. -/
inductive Answer
  | refused
  | failed
  | done
  | minted (token : Token)
  deriving DecidableEq, Repr

/-- A request in flight; `stored` is a ghost, the token that was stored when it was made. -/
structure Call where
  request : Request
  stored : Option Token
  sent : Option Token
  answer : Option Answer
  deriving DecidableEq, Repr

/-! ## The server -/

/-- The tokens that are no longer accepted, and the next `jti`. -/
structure Server where
  next : ℕ
  dead : Token → Bool

/-- What a request meets besides the guard: it does not arrive, it is refused for a reason of its own (a wrong password,
the age of the session), it is served, or it is served and the answer is lost. -/
inductive Luck
  | down | refuses | serves | lost
  deriving DecidableEq, Repr

namespace Server

def kill (p : Token → Bool) (s : Server) : Server := { s with dead := fun t => s.dead t || p t }

def mint (sub : String) (s : Server) : Server × Answer := ({ s with next := s.next + 1 }, .minted ⟨s.next, sub⟩)

/-- The guard: the token of a request, where it has one that is accepted. -/
def admitted (sent : Option Token) (s : Server) : Option Token := sent.filter fun t => !s.dead t

/-- What an endpoint does for a token that passed the guard. -/
def serve (request : Request) (t : Token) (s : Server) : Server × Answer :=
  match request with
  | .refresh => (s.kill fun x => x = t).mint t.sub
  | .setPassword _ => (s.kill fun x => x.sub = t.sub ∧ x.jti < s.next).mint t.sub
  | .claim => s.mint t.sub
  | .logout => (s.kill fun x => x = t, .done)
  | .logoutEverywhere => (s.kill fun x => x.sub = t.sub ∧ x.jti < s.next, .done)
  | _ => (s, .done)

/-- How an endpoint refuses for a reason of its own. -/
def refusal : Request → Answer
  | .signIn _ => .refused
  | .refresh => .refused
  | .setPassword _ => .refused
  | .googleLinkStart => .refused
  | _ => .failed

def answer (request : Request) (sent : Option Token) (luck : Luck) (s : Server) : Server × Answer :=
  match luck, request, s.admitted sent with
  | .down, _, _ => (s, .failed)
  | .refuses, .signIn _, _ => (s, .refused)
  | .serves, .signIn id, _ => s.mint id
  | .lost, .signIn id, _ => ((s.mint id).1, .failed)
  | _, _, none => (s, .refused)
  | .refuses, request, some _ => (s, refusal request)
  | .serves, request, some t => s.serve request t
  | .lost, request, some t => ((s.serve request t).1, .failed)

end Server

/-! ## The pages -/

/-- A page is opened once. -/
inductive Page
  | fresh | shown | closed
  deriving DecidableEq, Repr

/-- A page: the user it shows, the storage events on their way to it, whether its socket is connected, whether the frame
`session-ended` is on its way to that, and its requests. -/
structure Tab where
  page : Page
  user : Option User
  inbox : List (Option Item)
  connected : Bool
  ended : Bool
  calls : List Call

def Tab.fresh : Tab := ⟨.fresh, none, [], false, false, []⟩

/-- The token of a page, which its socket presents. -/
def Tab.token (t : Tab) : Option Token := t.user.bind User.token

/-- `setUser`; another token is another socket. -/
def Tab.setUser (u : Option User) (t : Tab) : Tab :=
  if u.bind User.token = t.token then { t with user := u }
  else { t with user := u, connected := false, ended := false }

/-- A socket whose token has died is told so. -/
def Tab.evict (before after : Server) (t : Tab) : Tab :=
  if t.connected = true ∧ t.token.any (fun x => !before.dead x && after.dead x) = true then { t with ended := true } else t

/-- The browser and the server. -/
structure State (I : Type) where
  storage : Option Item
  tab : I → Tab
  server : Server

def State.initial (I : Type) : State I := ⟨none, fun _ => Tab.fresh, ⟨0, fun _ => false⟩⟩

variable {I : Type} [DecidableEq I]

namespace State

def modify (i : I) (f : Tab → Tab) (s : State I) : State I := { s with tab := Function.update s.tab i (f (s.tab i)) }

/-- `setItem` and `removeItem`: the other pages are told of a value that changed. -/
def write (i : I) (item : Option Item) (s : State I) : State I :=
  if item = s.storage then s
  else { s with
    storage := item
    tab := fun j => if j ≠ i ∧ (s.tab j).page = .shown then { s.tab j with inbox := (s.tab j).inbox ++ [item] } else s.tab j }

/-- The session of an answer is shown and stored. -/
def signedIn (i : I) (u : User) (s : State I) : State I :=
  (s.modify i (Tab.setUser (some u))).write i (some (.user u))

/-- A token minted for the same account: guarded by its id, in what is shown and in what is stored. -/
def adoptToken (i : I) (token : Token) (id : String) (s : State I) : State I :=
  let s := s.modify i fun t => t.setUser (t.user.map fun u => if u.id = id then { u with token := some token } else u)
  match s.storage with
  | some (.user u) => if u.id = id then s.write i (some (.user { u with token := some token })) else s
  | _ => s

/-- `clearStoredUser`, and `onExpired` in the page that called it. -/
def clearStoredUser (i : I) (s : State I) : State I := (s.write i none).modify i (Tab.setUser none)

/-- The response interceptor clears the session of a 401 that its own token got. -/
def intercept (i : I) (c : Call) (a : Answer) (s : State I) : State I :=
  if a = .refused ∧ (readStoredToken s.storage).isSome ∧ c.sent = readStoredToken s.storage then s.clearStoredUser i else s

/-- What a page does with an answer. -/
def settle (i : I) (c : Call) (a : Answer) (s : State I) : State I :=
  match c.request, a with
  | .refresh, .minted t => (s.intercept i c a).adoptToken i t t.sub
  | .setPassword _, .minted t => (s.intercept i c a).adoptToken i t t.sub
  | .signIn _, .minted t => (s.intercept i c a).signedIn i ⟨t.sub, some t⟩
  | .claim, .minted t => (s.intercept i c a).signedIn i ⟨t.sub, some t⟩
  | _, _ => s.intercept i c a

/-- `onStorage`. -/
def onStorage (i : I) (item : Option Item) (s : State I) : State I :=
  match item with
  | none => s.modify i (Tab.setUser none)
  | some .malformed => s
  | some (.user next) => s.modify i fun t =>
    t.setUser (match t.user with
      | none => some next
      | some current => if current.id = next.id then some next else some current)

/-- The tokens of the server change, and the sockets are told. -/
def become (after : Server) (s : State I) : State I :=
  { s with server := after, tab := fun j => (s.tab j).evict s.server after }

/-- A page reads the stored session when it is mounted; a malformed one is removed. -/
def mount (i : I) (s : State I) : State I :=
  match s.storage with
  | none => s.modify i fun t => { t with page := .shown }
  | some (.user u) => s.modify i fun t => { t with page := .shown, user := some u }
  | some .malformed => (s.modify i fun t => { t with page := .shown }).write i none

/-- A page makes a request; `logout` also forgets the session. -/
def call (synchronous : Bool) (i : I) (request : Request) (s : State I) : State I :=
  let stored := readStoredToken s.storage
  let s := if request.signsOut then (s.modify i (Tab.setUser none)).write i none else s
  let sent := request.header (if synchronous then stored else readStoredToken s.storage)
  s.modify i fun t => { t with calls := t.calls ++ [⟨request, stored, sent, none⟩] }

end State

/-- A step: of a page, of the server for a request or by itself, or of the network. -/
inductive Action (I : Type)
  | mount (i : I)
  | close (i : I)
  | call (i : I) (request : Request)
  | serve (i : I) (n : ℕ) (luck : Luck)
  | settle (i : I) (n : ℕ)
  | onStorage (i : I)
  | connect (i : I)
  | sessionEnded (i : I)
  | kill (p : Token → Bool)

/-- One step; the timer of a refresh runs where the page has a token. -/
def step (synchronous : Bool) (s : State I) : Action I → State I
  | .mount i => if (s.tab i).page = .fresh then s.mount i else s
  | .close i => if (s.tab i).page = .shown then s.modify i fun t => { t with page := .closed } else s
  | .call i request =>
    if (s.tab i).page = .shown ∧ (request = .refresh → (s.tab i).token.isSome) then s.call synchronous i request else s
  | .serve i n luck =>
    match (s.tab i).calls[n]? with
    | some ⟨request, stored, sent, none⟩ =>
      let r := s.server.answer request sent luck
      (s.become r.1).modify i fun t => { t with calls := t.calls.set n ⟨request, stored, sent, some r.2⟩ }
    | _ => s
  | .settle i n =>
    match (s.tab i).page, (s.tab i).calls[n]? with
    | .shown, some ⟨request, stored, sent, some a⟩ =>
      (s.modify i fun t => { t with calls := t.calls.eraseIdx n }).settle i ⟨request, stored, sent, some a⟩ a
    | _, _ => s
  | .onStorage i =>
    match (s.tab i).page, (s.tab i).inbox with
    | .shown, item :: inbox => (s.modify i fun t => { t with inbox := inbox }).onStorage i item
    | _, _ => s
  | .connect i =>
    if (s.tab i).page = .shown ∧ (s.tab i).token.any (fun x => !s.server.dead x) = true then
      s.modify i fun t => { t with connected := true }
    else s
  | .sessionEnded i => if (s.tab i).ended = true then s.modify i (Tab.setUser none) else s
  | .kill p => s.become (s.server.kill p)

/-- The runs of a browser, from one with nothing stored. -/
def machine (I : Type) [DecidableEq I] (synchronous : Bool) : Machine (State I) (Action I) Unit :=
  ⟨State.initial I, fun s a => (step synchronous s a, ())⟩

/-! ## What a step keeps -/

section Frames

variable {s : State I} {i j : I} {u : User} {item : Option Item} {f : Tab → Tab} {c : Call} {a : Answer}

@[simp] theorem Tab.setUser_calls (u : Option User) (t : Tab) : (t.setUser u).calls = t.calls := by
  unfold Tab.setUser
  split <;> rfl

@[simp] theorem Tab.setUser_user (u : Option User) (t : Tab) : (t.setUser u).user = u := by
  unfold Tab.setUser
  split <;> rfl

@[simp] theorem Tab.setUser_inbox (u : Option User) (t : Tab) : (t.setUser u).inbox = t.inbox := by
  unfold Tab.setUser
  split <;> rfl

@[simp] theorem Tab.evict_calls (before after : Server) (t : Tab) : (t.evict before after).calls = t.calls := by
  unfold Tab.evict
  split <;> rfl

@[simp] theorem Tab.evict_user (before after : Server) (t : Tab) : (t.evict before after).user = t.user := by
  unfold Tab.evict
  split <;> rfl

@[simp] theorem Tab.evict_inbox (before after : Server) (t : Tab) : (t.evict before after).inbox = t.inbox := by
  unfold Tab.evict
  split <;> rfl

namespace State

@[simp] theorem modify_storage : (s.modify i f).storage = s.storage := rfl
@[simp] theorem modify_server : (s.modify i f).server = s.server := rfl
@[simp] theorem modify_tab_self : (s.modify i f).tab i = f (s.tab i) := Function.update_self ..
theorem modify_tab_of_ne (h : j ≠ i) : (s.modify i f).tab j = s.tab j := Function.update_of_ne h ..
omit [DecidableEq I] in
@[simp] theorem become_storage (after : Server) : (s.become after).storage = s.storage := rfl
omit [DecidableEq I] in
@[simp] theorem become_server (after : Server) : (s.become after).server = after := rfl
omit [DecidableEq I] in
@[simp] theorem become_tab (after : Server) : (s.become after).tab j = (s.tab j).evict s.server after := rfl

/-- What a change of one page keeps of every page. -/
theorem modify_keeps {α : Type} (g : Tab → α) (h : g (f (s.tab i)) = g (s.tab i)) (j : I) :
    g ((s.modify i f).tab j) = g (s.tab j) := by
  rcases eq_or_ne j i with rfl | hne
  · rw [modify_tab_self, h]
  · rw [modify_tab_of_ne hne]

@[simp] theorem write_storage : (s.write i item).storage = item := by
  unfold write
  split
  · rename_i h
    exact h.symm
  · rfl

@[simp] theorem write_server : (s.write i item).server = s.server := by
  unfold write
  split <;> rfl

@[simp] theorem write_user : ((s.write i item).tab j).user = (s.tab j).user := by
  unfold write
  split
  · rfl
  · simp only
    split <;> rfl

@[simp] theorem write_calls : ((s.write i item).tab j).calls = (s.tab j).calls := by
  unfold write
  split
  · rfl
  · simp only
    split <;> rfl

/-- The storage events of a page after a write: the value, where it changed and another page wrote it. -/
theorem mem_write_inbox {x : Option Item} (h : x ∈ ((s.write i item).tab j).inbox) : x ∈ (s.tab j).inbox ∨ x = item := by
  unfold write at h
  split at h
  · exact Or.inl h
  · simp only at h
    split at h
    · exact (List.mem_append.mp h).imp id List.mem_singleton.mp
    · exact Or.inl h

@[simp] theorem signedIn_storage : (s.signedIn i u).storage = some (.user u) := write_storage
@[simp] theorem signedIn_server : (s.signedIn i u).server = s.server := write_server

@[simp] theorem signedIn_calls : ((s.signedIn i u).tab j).calls = (s.tab j).calls :=
  write_calls.trans (modify_keeps Tab.calls (Tab.setUser_calls ..) j)

@[simp] theorem adoptToken_server (token : Token) (id : String) : (s.adoptToken i token id).server = s.server := by
  unfold adoptToken
  simp only
  split
  · split
    · exact write_server
    · rfl
  · rfl

@[simp] theorem adoptToken_calls (token : Token) (id : String) :
    ((s.adoptToken i token id).tab j).calls = (s.tab j).calls := by
  unfold adoptToken
  simp only
  split
  · split
    · exact write_calls.trans (modify_keeps Tab.calls (Tab.setUser_calls ..) j)
    · exact modify_keeps Tab.calls (Tab.setUser_calls ..) j
  · exact modify_keeps Tab.calls (Tab.setUser_calls ..) j

/-- What is stored after a token was adopted. -/
theorem adoptToken_storage (token : Token) (id : String) : (s.adoptToken i token id).storage =
    (match s.storage with
    | some (.user u) => if u.id = id then some (.user { u with token := some token }) else some (.user u)
    | other => other) := by
  unfold adoptToken
  simp only [modify_storage]
  split
  · rename_i u hu
    split
    · exact write_storage
    · exact hu
  · rfl

@[simp] theorem clearStoredUser_storage : (s.clearStoredUser i).storage = none := write_storage
@[simp] theorem clearStoredUser_server : (s.clearStoredUser i).server = s.server := write_server

@[simp] theorem clearStoredUser_calls : ((s.clearStoredUser i).tab j).calls = (s.tab j).calls :=
  (modify_keeps Tab.calls (Tab.setUser_calls ..) j).trans write_calls

@[simp] theorem intercept_server : (s.intercept i c a).server = s.server := by
  unfold intercept
  split
  · exact clearStoredUser_server
  · rfl

@[simp] theorem intercept_calls : ((s.intercept i c a).tab j).calls = (s.tab j).calls := by
  unfold intercept
  split
  · exact clearStoredUser_calls
  · rfl

/-- An answer that brings a token is no refusal. -/
@[simp] theorem intercept_minted (token : Token) : s.intercept i c (.minted token) = s := if_neg fun h => by cases h.1

@[simp] theorem settle_server : (s.settle i c a).server = s.server := by
  unfold settle
  split <;> simp

@[simp] theorem settle_calls : ((s.settle i c a).tab j).calls = (s.tab j).calls := by
  unfold settle
  split <;> simp

@[simp] theorem onStorage_storage : (s.onStorage i item).storage = s.storage := by
  unfold onStorage
  split <;> rfl

@[simp] theorem onStorage_server : (s.onStorage i item).server = s.server := by
  unfold onStorage
  split <;> rfl

@[simp] theorem onStorage_calls : ((s.onStorage i item).tab j).calls = (s.tab j).calls := by
  unfold onStorage
  split
  · exact modify_keeps Tab.calls (Tab.setUser_calls ..) j
  · rfl
  · exact modify_keeps Tab.calls (Tab.setUser_calls ..) j

@[simp] theorem mount_server : (s.mount i).server = s.server := by
  unfold mount
  split
  · rfl
  · rfl
  · exact write_server

@[simp] theorem mount_calls : ((s.mount i).tab j).calls = (s.tab j).calls := by
  unfold mount
  split
  · exact modify_keeps Tab.calls rfl j
  · exact modify_keeps Tab.calls rfl j
  · exact write_calls.trans (modify_keeps Tab.calls rfl j)

end State

/-- The request that a page makes. -/
def made (synchronous : Bool) (s : State I) (request : Request) : Call :=
  ⟨request, readStoredToken s.storage, request.header
    (if synchronous = true ∨ request.signsOut = false then readStoredToken s.storage else none), none⟩

theorem call_eq (synchronous : Bool) (request : Request) : s.call synchronous i request =
    (if request.signsOut then (s.modify i (Tab.setUser none)).write i none else s).modify i
      fun t => { t with calls := t.calls ++ [made synchronous s request] } := by
  unfold State.call made
  cases hs : request.signsOut <;> cases synchronous <;> simp [readStoredToken]

/-- **The requests after a step**: they were there, one is new, or one has its answer. -/
theorem mem_calls_step {synchronous : Bool} {action : Action I} (h : c ∈ ((step synchronous s action).tab j).calls) :
    c ∈ (s.tab j).calls ∨ (∃ request, action = .call j request ∧ c = made synchronous s request) ∨
    ∃ n luck c₀, action = .serve j n luck ∧ (s.tab j).calls[n]? = some c₀ ∧ c₀.answer = none ∧
      c = { c₀ with answer := some (s.server.answer c₀.request c₀.sent luck).2 } := by
  cases action with
  | mount i =>
    simp only [step] at h
    split at h
    · rw [State.mount_calls] at h
      exact Or.inl h
    · exact Or.inl h
  | close i =>
    simp only [step] at h
    split at h
    · rw [State.modify_keeps Tab.calls rfl] at h
      exact Or.inl h
    · exact Or.inl h
  | call i request =>
    simp only [step] at h
    split at h
    · rw [call_eq] at h
      have hkeep : ∀ k, ((if request.signsOut then (s.modify i (Tab.setUser none)).write i none else s).tab k).calls =
          (s.tab k).calls := by
        intro k
        split
        · exact State.write_calls.trans (State.modify_keeps Tab.calls (Tab.setUser_calls ..) k)
        · rfl
      rcases eq_or_ne j i with rfl | hne
      · rw [State.modify_tab_self] at h
        simp only [hkeep, List.mem_append, List.mem_singleton] at h
        exact h.imp id fun hc => Or.inl ⟨request, rfl, hc⟩
      · rw [State.modify_tab_of_ne hne, hkeep] at h
        exact Or.inl h
    · exact Or.inl h
  | serve i n luck =>
    simp only [step] at h
    split at h
    · rename_i request stored sent hc
      rcases eq_or_ne j i with rfl | hne
      · rw [State.modify_tab_self] at h
        simp only [State.become_tab, Tab.evict_calls] at h
        rcases List.mem_or_eq_of_mem_set h with h | h
        · exact Or.inl h
        · exact Or.inr (Or.inr ⟨n, luck, _, rfl, hc, rfl, h⟩)
      · rw [State.modify_tab_of_ne hne, State.become_tab, Tab.evict_calls] at h
        exact Or.inl h
    · exact Or.inl h
  | settle i n =>
    simp only [step] at h
    split at h
    · rw [State.settle_calls] at h
      rcases eq_or_ne j i with rfl | hne
      · rw [State.modify_tab_self] at h
        exact Or.inl (List.mem_of_mem_eraseIdx h)
      · rw [State.modify_tab_of_ne hne] at h
        exact Or.inl h
    · exact Or.inl h
  | onStorage i =>
    simp only [step] at h
    split at h
    · rw [State.onStorage_calls, State.modify_keeps Tab.calls rfl] at h
      exact Or.inl h
    · exact Or.inl h
  | connect i =>
    simp only [step] at h
    split at h
    · rw [State.modify_keeps Tab.calls rfl] at h
      exact Or.inl h
    · exact Or.inl h
  | sessionEnded i =>
    simp only [step] at h
    split at h
    · rw [State.modify_keeps Tab.calls (Tab.setUser_calls ..)] at h
      exact Or.inl h
    · exact Or.inl h
  | kill p =>
    simp only [step, State.become_tab, Tab.evict_calls] at h
    exact Or.inl h

end Frames

end Session
end WatchParty
