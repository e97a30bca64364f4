import Mathlib.Data.List.Perm.Basic
import WatchParty.Session.SignOut

/-!
# A session that is refreshed

Any number of pages of one browser refresh one session. A refresh ends the token that it carries, so there is always one
token that is accepted: it is stored, or in the one answer that brings it. A page that refreshed with a token that has
just been refreshed elsewhere is refused, and the response interceptor takes the refusal for the end of the session
where the answer that brings the new token has not been handled yet.

- `Begun`: a session is stored and no request is on its way;
- `Chain`: where the token that is accepted is;
- `session_kept_iff`: the session is kept exactly where no refusal of the stored token is handled, and one that is
  handled ends a session that is alive;
- `told_dark`: a page that is told that its session ended shows nobody from then on, though the session goes on.
-/

namespace WatchParty
namespace Session

variable {I : Type}

/-- A session of the account is stored, its token is accepted, and no request is on its way. -/
structure Begun (id : String) (s : State I) (w : Token) : Prop where
  stored : s.storage = some (.user ⟨id, some w⟩)
  sub : w.sub = id
  live : s.server.dead w = false
  minted : w.jti < s.server.next
  fresh : ∀ x : Token, s.server.next ≤ x.jti → s.server.dead x = false
  idle : ∀ j, (s.tab j).calls = []

/-- The pages only refresh and use the session, and nothing else ends a token. -/
def Using : Action I → Prop
  | .call _ request => request = .refresh ∨ request = .other
  | .serve _ _ luck => luck = .serves ∨ luck = .down
  | .kill _ => False
  | _ => True

/-- A request whose answer brings a token. -/
def Call.brings (c : Call) : Bool :=
  match c.answer with
  | some (.minted _) => true
  | _ => false

/-- A token of the account that the server accepts is in an answer on its way. -/
def Coming (id : String) (s : State I) : Prop :=
  ∃ j, ∃ c ∈ (s.tab j).calls, ∃ x, c.answer = some (.minted x) ∧ x.sub = id ∧ s.server.dead x = false

/-- Where the token that is accepted is: stored, in the one answer that brings it, or nowhere, the session being lost. -/
inductive Place (id : String) (s : State I) (w : Token) : Prop
  | stored (h : s.storage = some (.user ⟨id, some w⟩)) (hnone : ∀ j, (s.tab j).calls.countP Call.brings = 0)
  | coming (j : I) (h : readStoredToken s.storage ≠ some w) (hone : (s.tab j).calls.countP Call.brings = 1)
      (hnone : ∀ k, k ≠ j → (s.tab k).calls.countP Call.brings = 0)
  | lost (h : s.storage = none) (hnone : ∀ j, (s.tab j).calls.countP Call.brings = 0)

/-- One request, where `w` is accepted and `stored` is stored. -/
structure Call.Chained (server : Server) (stored : Option Token) (w : Token) (c : Call) : Prop where
  request : c.request = .refresh ∨ c.request = .other
  sent : ∀ x, c.sent = some x → server.dead x = true ∨ x = w ∧ stored = some w
  refused : c.answer = some .refused → ∀ x, c.sent = some x → server.dead x = true
  brings : ∀ x, c.answer = some (.minted x) → x = w ∧ c.request = .refresh

/-- The token that is accepted, and what is stored. -/
structure Chain (id : String) (s : State I) (w : Token) : Prop where
  live : s.server.dead w = false
  sub : w.sub = id
  minted : w.jti < s.server.next
  fresh : ∀ x : Token, s.server.next ≤ x.jti → s.server.dead x = false
  storage : s.storage = none ∨ ∃ t, s.storage = some (.user ⟨id, some t⟩) ∧ (t = w ∨ s.server.dead t = true)
  calls : ∀ j, ∀ c ∈ (s.tab j).calls, c.Chained s.server (readStoredToken s.storage) w
  place : Place id s w

theorem Place.congr {id : String} {s s' : State I} {w : Token} (h : Place id s w) (hs : s'.storage = s.storage)
    (hc : ∀ j, (s'.tab j).calls.countP Call.brings = (s.tab j).calls.countP Call.brings) : Place id s' w := by
  cases h with
  | stored h hnone => exact .stored (hs.trans h) fun j => (hc j).trans (hnone j)
  | coming j h hone hnone => exact .coming j (by rwa [hs]) ((hc j).trans hone) fun k hk => (hc k).trans (hnone k hk)
  | lost h hnone => exact .lost (hs.trans h) fun j => (hc j).trans (hnone j)

theorem Begun.chain {id : String} {s : State I} {w : Token} (h : Begun id s w) : Chain id s w where
  live := h.live
  sub := h.sub
  minted := h.minted
  fresh := h.fresh
  storage := Or.inr ⟨w, h.stored, Or.inl rfl⟩
  calls j c hc := by
    rw [h.idle] at hc
    exact absurd hc List.not_mem_nil
  place := .stored h.stored fun j => by rw [h.idle]; rfl

/-- A request less. -/
theorem countP_eraseIdx {α : Type} (p : α → Bool) {l : List α} {n : ℕ} {c : α} (h : l[n]? = some c) :
    (l.eraseIdx n).countP p + (if p c then 1 else 0) = l.countP p := by
  obtain ⟨hn, rfl⟩ := List.getElem?_eq_some_iff.mp h
  rw [← (List.getElem_cons_eraseIdx_perm hn).countP_eq p, List.countP_cons]

/-- A request that has its answer. -/
theorem countP_set {α : Type} (p : α → Bool) {l : List α} {n : ℕ} {c d : α} (h : l[n]? = some c) (hc : p c = false) :
    (l.set n d).countP p = l.countP p + if p d then 1 else 0 := by
  obtain ⟨hn, rfl⟩ := List.getElem?_eq_some_iff.mp h
  rw [List.countP_set hn, hc]
  simp

variable [DecidableEq I] {id : String} {s s' : State I} {w : Token} {i : I}

namespace Chain

omit [DecidableEq I] in
/-- A step that leaves the requests, the storage and the server as they were. -/
theorem keep (h : Chain id s w) (hs : s'.storage = s.storage) (hv : s'.server = s.server)
    (hc : ∀ j, (s'.tab j).calls = (s.tab j).calls) : Chain id s' w where
  live := hv ▸ h.live
  sub := h.sub
  minted := hv ▸ h.minted
  fresh := hv ▸ h.fresh
  storage := by
    rw [hs, hv]
    exact h.storage
  calls j c hj := by
    rw [hc] at hj
    rw [hs, hv]
    exact h.calls j c hj
  place := h.place.congr hs fun j => by rw [hc]

omit [DecidableEq I] in
/-- What is stored is a user or nothing. -/
theorem user (h : Chain id s w) : s.storage = none ∨ ∃ u, s.storage = some (.user u) := by
  rcases h.storage with hs | ⟨t, hs, -⟩
  · exact Or.inl hs
  · exact Or.inr ⟨_, hs⟩

omit [DecidableEq I] in
/-- What a request carries is accepted only if it is stored. -/
theorem stored_token (h : Chain id s w) {x : Token} (hx : readStoredToken s.storage = some x) :
    s.server.dead x = true ∨ x = w ∧ readStoredToken s.storage = some w := by
  rcases h.storage with hs | ⟨t, hs, rfl | hd⟩
  · rw [hs] at hx
    cases hx
  · rw [hs] at hx ⊢
    exact Or.inr ⟨(Option.some.inj hx).symm, rfl⟩
  · rw [hs] at hx
    obtain rfl : t = x := Option.some.inj hx
    exact Or.inl hd

/-- A page makes a request. -/
theorem call (h : Chain id s w) (synchronous : Bool) {request : Request} (hr : request = .refresh ∨ request = .other) :
    Chain id (s.call synchronous i request) w := by
  have hquiet : request.signsOut = false := by rcases hr with rfl | rfl <;> rfl
  have hmade : (made synchronous s request).sent = readStoredToken s.storage := by
    rcases hr with rfl | rfl <;> simp [made, Request.header, Request.signsOut]
  have hcounts : ∀ j, ((s.call synchronous i request).tab j).calls.countP Call.brings =
      (s.tab j).calls.countP Call.brings := by
    intro j
    rw [call_eq, hquiet]
    refine State.modify_keeps (fun t => t.calls.countP Call.brings) ?_ j
    simp [Call.brings, made]
  have hstorage : (s.call synchronous i request).storage = s.storage := by rw [call_eq, hquiet]; rfl
  have hserver : (s.call synchronous i request).server = s.server := by rw [call_eq, hquiet]; rfl
  refine ⟨hserver ▸ h.live, h.sub, hserver ▸ h.minted, hserver ▸ h.fresh, ?_, fun j c hc => ?_,
    h.place.congr hstorage hcounts⟩
  · rw [hstorage, hserver]
    exact h.storage
  · rw [hstorage, hserver]
    rw [call_eq, hquiet] at hc
    rcases eq_or_ne j i with rfl | hne
    · rw [State.modify_tab_self] at hc
      rcases List.mem_append.mp hc with hc | hc
      · exact h.calls j c hc
      · rw [List.mem_singleton.mp hc]
        refine ⟨hr, fun x hx => h.stored_token (hmade ▸ hx), fun ha => ?_, fun x ha => ?_⟩
        · cases ha
        · cases ha
    · rw [State.modify_tab_of_ne hne] at hc
      exact h.calls j c hc

/-- The server answers nothing that brings a token, and goes on as it was. -/
theorem unserved (h : Chain id s w) {n : ℕ} {request : Request} {stored sent : Option Token} {a : Answer}
    (hc : (s.tab i).calls[n]? = some ⟨request, stored, sent, none⟩) (ha : ∀ t, a ≠ .minted t)
    (hrefused : a = .refused → ∀ x, sent = some x → s.server.dead x = true) :
    Chain id ((s.become s.server).modify i fun t =>
      { t with calls := t.calls.set n ⟨request, stored, sent, some a⟩ }) w := by
  have hbrings : Call.brings ⟨request, stored, sent, some a⟩ = false := by
    cases a with
    | minted t => exact absurd rfl (ha t)
    | _ => rfl
  have hcounts : ∀ j, (((s.become s.server).modify i fun t =>
      { t with calls := t.calls.set n ⟨request, stored, sent, some a⟩ }).tab j).calls.countP Call.brings =
      (s.tab j).calls.countP Call.brings := by
    intro j
    rcases eq_or_ne j i with rfl | hne
    · rw [State.modify_tab_self]
      simp only [State.become_tab, Tab.evict_calls]
      rw [countP_set Call.brings hc rfl, hbrings]
      rfl
    · rw [State.modify_tab_of_ne hne, State.become_tab, Tab.evict_calls]
  refine ⟨h.live, h.sub, h.minted, h.fresh, h.storage, fun j c hj => ?_, h.place.congr rfl hcounts⟩
  rcases eq_or_ne j i with rfl | hne
  · rw [State.modify_tab_self] at hj
    simp only [State.become_tab, Tab.evict_calls] at hj
    rcases List.mem_or_eq_of_mem_set hj with hj | rfl
    · exact h.calls j c hj
    · have hold := h.calls j _ (List.mem_of_getElem? hc)
      refine ⟨hold.request, hold.sent, fun hr => hrefused (Option.some.inj hr), fun x hx => ?_⟩
      exact absurd (Option.some.inj hx) (ha x)
  · rw [State.modify_tab_of_ne hne, State.become_tab, Tab.evict_calls] at hj
    exact h.calls j c hj

/-- **A refresh that is served** ends the stored token, and its answer brings the one that is accepted now. -/
theorem rotate (h : Chain id s w) {n : ℕ} {stored : Option Token} {x : Token}
    (hc : (s.tab i).calls[n]? = some ⟨.refresh, stored, some x, none⟩) (hx : s.server.dead x = false) :
    Chain id ((s.become (s.server.serve .refresh x).1).modify i fun t =>
      { t with calls := t.calls.set n ⟨.refresh, stored, some x, some (s.server.serve .refresh x).2⟩ })
      ⟨s.server.next, id⟩ := by
  obtain ⟨rfl, hstored⟩ := ((h.calls i _ (List.mem_of_getElem? hc)).sent x rfl).resolve_left (by rw [hx]; decide)
  have hnone : ∀ j, (s.tab j).calls.countP Call.brings = 0 := by
    cases h.place with
    | stored _ hnone => exact hnone
    | coming j hne => exact absurd hstored hne
    | lost _ hnone => exact hnone
  have hanswer : (s.server.serve .refresh x).2 = .minted ⟨s.server.next, id⟩ := by rw [← h.sub]; rfl
  have hserver : (s.server.serve .refresh x).1 = ⟨s.server.next + 1, fun t => s.server.dead t || decide (t = x)⟩ := rfl
  have hlater : ∀ t : Token, s.server.next ≤ t.jti → t ≠ x := by
    rintro t ht rfl
    exact absurd h.minted (by omega)
  have hlost : s.storage = some (.user ⟨id, some x⟩) := by
    rcases h.storage with hs | ⟨t, hs, -⟩
    · rw [hs] at hstored
      cases hstored
    · rw [hs] at hstored ⊢
      rw [show t = x from Option.some.inj hstored]
  have hne : (⟨s.server.next, id⟩ : Token) ≠ x := hlater _ le_rfl
  rw [hanswer, hserver]
  refine ⟨?_, rfl, Nat.lt_succ_self _, fun t ht => ?_, Or.inr ⟨x, hlost, Or.inr ?_⟩, fun j c hj => ?_, .coming i ?_ ?_ ?_⟩
  · simp [h.fresh ⟨s.server.next, id⟩ le_rfl, hne]
  · have hnext : s.server.next + 1 ≤ t.jti := ht
    simp [h.fresh t (by omega), hlater t (by omega)]
  · simp
  · have hdead : ∀ c : Call, c.Chained s.server (readStoredToken s.storage) x → (∀ y, c.answer ≠ some (.minted y)) →
        c.Chained ⟨s.server.next + 1, fun t => s.server.dead t || decide (t = x)⟩ (readStoredToken s.storage)
          ⟨s.server.next, id⟩ := by
      intro c hold hquiet
      refine ⟨hold.request, fun y hy => Or.inl ?_, fun hr y hy => ?_, fun y hy => absurd hy (hquiet y)⟩
      · rcases hold.sent y hy with hd | ⟨rfl, -⟩ <;> simp [*]
      · simp [hold.refused hr y hy]
    have hquiet : ∀ j, ∀ c ∈ (s.tab j).calls, ∀ y, c.answer ≠ some (.minted y) := by
      intro j c hj y hy
      refine List.countP_eq_zero.mp (hnone j) c hj ?_
      simp [Call.brings, hy]
    rcases eq_or_ne j i with rfl | hji
    · rw [State.modify_tab_self] at hj
      simp only [State.become_tab, Tab.evict_calls] at hj
      rcases List.mem_or_eq_of_mem_set hj with hj | rfl
      · exact hdead c (h.calls j c hj) (hquiet j c hj)
      · refine ⟨Or.inl rfl, fun y hy => Or.inl ?_, fun hr => ?_, fun y hy => ⟨?_, rfl⟩⟩
        · obtain rfl : x = y := Option.some.inj hy
          simp
        · cases hr
        · cases hy
          rfl
    · rw [State.modify_tab_of_ne hji, State.become_tab, Tab.evict_calls] at hj
      exact hdead c (h.calls j c hj) (hquiet j c hj)
  · exact fun heq => hne (Option.some.inj (heq.symm.trans hstored))
  · rw [State.modify_tab_self]
    simp only [State.become_tab, Tab.evict_calls]
    rw [countP_set Call.brings hc rfl, hnone]
    rfl
  · intro k hk
    rw [State.modify_tab_of_ne hk, State.become_tab, Tab.evict_calls]
    exact hnone k

/-- A page handles an answer that brings no token. -/
theorem heard (h : Chain id s w) {n : ℕ} {c : Call} {a : Answer} (hc : (s.tab i).calls[n]? = some c)
    (hca : c.answer = some a) (ha : ∀ t, a ≠ .minted t) :
    Chain id ((s.modify i fun t => { t with calls := t.calls.eraseIdx n }).intercept i c a) w := by
  have hbrings : c.brings = false := by
    unfold Call.brings
    rw [hca]
    cases a with
    | minted t => exact absurd rfl (ha t)
    | _ => rfl
  have hcounts : ∀ j, ((s.modify i fun t => { t with calls := t.calls.eraseIdx n }).tab j).calls.countP Call.brings =
      (s.tab j).calls.countP Call.brings := by
    refine State.modify_keeps (fun t => t.calls.countP Call.brings) ?_
    have herase := countP_eraseIdx Call.brings hc
    rwa [hbrings] at herase
  have hmem : ∀ j, ∀ d ∈ ((s.modify i fun t => { t with calls := t.calls.eraseIdx n }).tab j).calls,
      d ∈ (s.tab j).calls := by
    intro j d hd
    rcases eq_or_ne j i with rfl | hne
    · rw [State.modify_tab_self] at hd
      exact List.mem_of_mem_eraseIdx hd
    · rwa [State.modify_tab_of_ne hne] at hd
  have hfewer : Chain id (s.modify i fun t => { t with calls := t.calls.eraseIdx n }) w :=
    ⟨h.live, h.sub, h.minted, h.fresh, h.storage, fun j d hd => h.calls j d (hmem j d hd), h.place.congr rfl hcounts⟩
  unfold State.intercept
  split
  · rename_i hclear
    obtain ⟨rfl, hsome, hsent⟩ := hclear
    obtain ⟨x, hx⟩ := Option.isSome_iff_exists.mp hsome
    have hdead : s.server.dead x = true := (h.calls i c (List.mem_of_getElem? hc)).refused hca x (hsent.trans hx)
    have hnot : readStoredToken s.storage ≠ some w := by
      intro hw
      obtain rfl : x = w := Option.some.inj (hx.symm.trans hw)
      rw [h.live] at hdead
      cases hdead
    refine ⟨?_, h.sub, ?_, ?_, Or.inl State.clearStoredUser_storage, fun j d hd => ?_, ?_⟩
    · rw [State.clearStoredUser_server]
      exact h.live
    · rw [State.clearStoredUser_server]
      exact h.minted
    · rw [State.clearStoredUser_server]
      exact h.fresh
    · rw [State.clearStoredUser_calls] at hd
      have hold := h.calls j d (hmem j d hd)
      rw [State.clearStoredUser_server]
      exact ⟨hold.request, fun y hy => Or.inl ((hold.sent y hy).resolve_right fun hw => hnot hw.2), hold.refused, hold.brings⟩
    · cases hfewer.place with
      | stored h hnone =>
        refine absurd ?_ hnot
        rw [show s.storage = some (.user ⟨id, some w⟩) from h]
        rfl
      | coming j _ hone hnone =>
        refine .coming j ?_ (by rw [State.clearStoredUser_calls, hone]) fun k hk => by
          rw [State.clearStoredUser_calls, hnone k hk]
        rw [State.clearStoredUser_storage]
        exact fun h => by cases h
      | lost _ hnone =>
        exact .lost State.clearStoredUser_storage fun j => by rw [State.clearStoredUser_calls, hnone]
  · exact hfewer

/-- **A page handles the answer that brings the token that is accepted**: it is stored, or lost with the session. -/
theorem adopt (h : Chain id s w) {n : ℕ} {c : Call} (hc : (s.tab i).calls[n]? = some c) (hca : c.answer = some (.minted w)) :
    Chain id ((s.modify i fun t => { t with calls := t.calls.eraseIdx n }).adoptToken i w w.sub) w := by
  have hbrings : c.brings = true := by simp [Call.brings, hca]
  have hfull : (s.tab i).calls.countP Call.brings ≠ 0 := fun h0 =>
    absurd hbrings (by simpa using List.countP_eq_zero.mp h0 c (List.mem_of_getElem? hc))
  obtain ⟨hnot, hnone⟩ : readStoredToken s.storage ≠ some w ∧
      ∀ j, (((s.modify i fun t => { t with calls := t.calls.eraseIdx n }).adoptToken i w w.sub).tab j).calls.countP
        Call.brings = 0 := by
    cases h.place with
    | stored _ hnone => exact absurd (hnone i) hfull
    | lost _ hnone => exact absurd (hnone i) hfull
    | coming j hnot hone hnone =>
      obtain rfl : i = j := by
        by_contra hne
        exact hfull (hnone i hne)
      refine ⟨hnot, fun k => ?_⟩
      rw [State.adoptToken_calls]
      rcases eq_or_ne k i with rfl | hne
      · rw [State.modify_tab_self]
        have herase := countP_eraseIdx Call.brings hc
        simp only [hbrings, if_true] at herase
        simp only
        omega
      · rw [State.modify_tab_of_ne hne]
        exact hnone k hne
  have hstorage := State.adoptToken_storage (s := s.modify i fun t => { t with calls := t.calls.eraseIdx n }) (i := i)
    w w.sub
  rw [State.modify_storage] at hstorage
  have hcalls : ∀ j, ∀ d ∈ (((s.modify i fun t => { t with calls := t.calls.eraseIdx n }).adoptToken i w w.sub).tab j).calls,
      ∀ st, d.Chained s.server st w := by
    intro j d hd st
    rw [State.adoptToken_calls] at hd
    have hmem : d ∈ (s.tab j).calls := by
      rcases eq_or_ne j i with rfl | hne
      · rw [State.modify_tab_self] at hd
        exact List.mem_of_mem_eraseIdx hd
      · rwa [State.modify_tab_of_ne hne] at hd
    have hold := h.calls j d hmem
    exact ⟨hold.request, fun y hy => Or.inl ((hold.sent y hy).resolve_right fun hw => hnot hw.2), hold.refused, hold.brings⟩
  have hserver : ((s.modify i fun t => { t with calls := t.calls.eraseIdx n }).adoptToken i w w.sub).server = s.server :=
    State.adoptToken_server ..
  rcases h.storage with hs | ⟨t, hs, -⟩
  · rw [hs] at hstorage
    exact ⟨hserver ▸ h.live, h.sub, hserver ▸ h.minted, hserver ▸ h.fresh, Or.inl hstorage,
      fun j d hd => hserver ▸ hcalls j d hd _, .lost hstorage hnone⟩
  · rw [hs] at hstorage
    simp only [h.sub, if_true] at hstorage
    have hnow : ((s.modify i fun t => { t with calls := t.calls.eraseIdx n }).adoptToken i w w.sub).storage =
        some (.user ⟨id, some w⟩) := by rw [h.sub]; exact hstorage
    exact ⟨hserver ▸ h.live, h.sub, hserver ▸ h.minted, hserver ▸ h.fresh, Or.inr ⟨w, hnow, Or.inl rfl⟩,
      fun j d hd => hserver ▸ hcalls j d hd _, .stored hnow hnone⟩

end Chain

/-! ## Runs -/

/-- Where there is a user or nothing, a page that is mounted writes nothing. -/
theorem mount_storage (h : s.storage = none ∨ ∃ u, s.storage = some (.user u)) : (s.mount i).storage = s.storage := by
  unfold State.mount
  split
  · rfl
  · rfl
  · rename_i hm
    rcases h with h | ⟨u, h⟩
    · rw [h] at hm
      cases hm
    · rw [h] at hm
      cases hm

/-- **One step**: there is a token that is accepted. -/
theorem Chain.step (h : Chain id s w) (synchronous : Bool) {action : Action I} (hu : Using action) :
    ∃ w', Chain id (Session.step synchronous s action) w' := by
  have huser := h.user
  cases action with
  | mount i =>
    simp only [Session.step]
    split
    · exact ⟨w, h.keep (mount_storage huser) State.mount_server fun j => State.mount_calls⟩
    · exact ⟨w, h⟩
  | close i =>
    simp only [Session.step]
    split
    · exact ⟨w, h.keep rfl rfl fun j => State.modify_keeps Tab.calls rfl j⟩
    · exact ⟨w, h⟩
  | call i request =>
    simp only [Session.step]
    split
    · exact ⟨w, h.call synchronous hu⟩
    · exact ⟨w, h⟩
  | serve i n luck =>
    simp only [Session.step]
    split
    · rename_i request stored sent hc
      have hchained := h.calls i _ (List.mem_of_getElem? hc)
      have hrequest : request = .refresh ∨ request = .other := hchained.request
      cases hadmitted : s.server.admitted sent with
      | none =>
        -- the guard refuses: there is no token, or it is dead
        have hdead : ∀ x, sent = some x → s.server.dead x = true := by
          rintro x rfl
          by_contra hx
          rw [Bool.not_eq_true] at hx
          simp [Server.admitted, hx] at hadmitted
        rcases hu with rfl | rfl
        · have hanswer : s.server.answer request sent .serves = (s.server, .refused) := by
            rcases hrequest with rfl | rfl <;> simp [Server.answer, hadmitted]
          rw [hanswer]
          exact ⟨w, h.unserved hc (fun t ht => by cases ht) fun _ => hdead⟩
        · exact ⟨w, h.unserved hc (fun t ht => by cases ht) fun ht => by cases ht⟩
      | some x =>
        obtain ⟨rfl, hlive⟩ : sent = some x ∧ s.server.dead x = false := by
          cases sent with
          | none => cases hadmitted
          | some y =>
            obtain ⟨hy, hlive⟩ := Option.filter_eq_some_iff.mp hadmitted
            cases hy
            exact ⟨rfl, by simpa using hlive⟩
        rcases hu with rfl | rfl
        · rcases hrequest with rfl | rfl
          · have hanswer : s.server.answer .refresh (some x) .serves = s.server.serve .refresh x := by
              simp [Server.answer, hadmitted]
            rw [hanswer]
            exact ⟨_, h.rotate hc hlive⟩
          · have hanswer : s.server.answer .other (some x) .serves = (s.server, .done) := by
              simp [Server.answer, hadmitted, Server.serve]
            rw [hanswer]
            exact ⟨w, h.unserved hc (fun t ht => by cases ht) fun ht => by cases ht⟩
        · exact ⟨w, h.unserved hc (fun t ht => by cases ht) fun ht => by cases ht⟩
    · exact ⟨w, h⟩
  | settle i n =>
    simp only [Session.step]
    split
    · rename_i request stored sent a hpage hc
      have hchained := h.calls i _ (List.mem_of_getElem? hc)
      cases a with
      | minted t =>
        obtain ⟨rfl, hrequest⟩ := hchained.brings t rfl
        obtain rfl : request = .refresh := hrequest
        simp only [State.settle, State.intercept_minted]
        exact ⟨t, h.adopt hc rfl⟩
      | _ =>
        rcases hchained.request with hr | hr <;> obtain rfl := hr <;>
          exact ⟨w, h.heard hc rfl fun t ht => by cases ht⟩
    · exact ⟨w, h⟩
  | onStorage i =>
    simp only [Session.step]
    split
    · refine ⟨w, h.keep State.onStorage_storage State.onStorage_server fun j => ?_⟩
      exact State.onStorage_calls.trans (State.modify_keeps Tab.calls rfl j)
    · exact ⟨w, h⟩
  | connect i =>
    simp only [Session.step]
    split
    · exact ⟨w, h.keep rfl rfl fun j => State.modify_keeps Tab.calls rfl j⟩
    · exact ⟨w, h⟩
  | sessionEnded i =>
    simp only [Session.step]
    split
    · exact ⟨w, h.keep rfl rfl fun j => State.modify_keeps Tab.calls (Tab.setUser_calls ..) j⟩
    · exact ⟨w, h⟩
  | kill p => cases hu

omit [DecidableEq I] in
/-- Where the stored token is no longer accepted, the one that is accepted is on its way. -/
theorem Chain.coming (h : Chain id s w) {t : Token} (hread : readStoredToken s.storage = some t)
    (hdead : s.server.dead t = true) : Coming id s := by
  rcases h.place with ⟨hw, -⟩ | ⟨j, -, hone, -⟩ | ⟨hnone, -⟩
  · rw [hw] at hread
    obtain rfl : w = t := Option.some.inj hread
    rw [h.live] at hdead
    cases hdead
  · obtain ⟨d, hd, hbrings⟩ := List.countP_pos_iff.mp (by omega : 0 < (s.tab j).calls.countP Call.brings)
    obtain ⟨x, hx⟩ : ∃ x, d.answer = some (.minted x) := by
      unfold Call.brings at hbrings
      split at hbrings
      · rename_i x hx
        exact ⟨x, hx⟩
      · cases hbrings
    obtain ⟨rfl, -⟩ := (h.calls j d hd).brings x hx
    exact ⟨j, d, hd, x, hx, h.sub, h.live⟩
  · rw [hnone] at hread
    cases hread

/-- The chain of tokens of a session, over a run. -/
theorem Begun.chain_run {s : State I} (h : Begun id s w) (synchronous : Bool) (ops : List (Action I))
    (hu : ∀ a ∈ ops, Using a) : ∃ w', Chain id ((machine I synchronous).runFrom s ops) w' := by
  induction ops using List.reverseRecOn with
  | nil => exact ⟨w, h.chain⟩
  | append_singleton ops a ih =>
    obtain ⟨w', hchain⟩ := ih fun a ha => hu a (List.mem_append_left _ ha)
    rw [Machine.runFrom_snoc]
    exact hchain.step synchronous (hu a (List.mem_append_right _ (List.mem_singleton_self a)))

omit [DecidableEq I] in
/-- Where a token is stored, it is one that the server accepts, or the one that the server accepts is on its way. -/
theorem Chain.alive (h : Chain id s w) {t : Token} (hread : readStoredToken s.storage = some t) :
    s.server.dead t = false ∨ Coming id s := by
  cases hd : s.server.dead t with
  | false => exact Or.inl rfl
  | true => exact Or.inr (h.coming hread hd)

/-- A page that has been opened and shows nobody. -/
def Dark (i : I) (s : State I) : Prop := (s.tab i).user = none ∧ (s.tab i).page ≠ .fresh

theorem Tab.setUser_page (u : Option User) (t : Tab) : (t.setUser u).page = t.page := by
  unfold Tab.setUser
  split <;> rfl

/-- A change of one page that leaves it dark. -/
theorem Dark.modify {i j : I} (h : Dark i s) {f : Tab → Tab} (hu : (s.tab j).user = none → (f (s.tab j)).user = none)
    (hp : (f (s.tab j)).page = .fresh → (s.tab j).page = .fresh) : Dark i (s.modify j f) := by
  rcases eq_or_ne i j with rfl | hne
  · refine ⟨?_, ?_⟩
    · rw [State.modify_tab_self]
      exact hu h.1
    · rw [State.modify_tab_self]
      exact fun hf => h.2 (hp hf)
  · unfold Dark
    rw [State.modify_tab_of_ne hne]
    exact h

theorem Dark.write {i j : I} (h : Dark i s) (item : Option Item) : Dark i (s.write j item) := by
  refine ⟨State.write_user.trans h.1, ?_⟩
  unfold State.write
  split
  · exact h.2
  · simp only
    split <;> exact h.2

theorem Dark.setUser {i j : I} (h : Dark i s) {g : Tab → Option User} (hg : (s.tab j).user = none → g (s.tab j) = none) :
    Dark i (s.modify j fun t => t.setUser (g t)) :=
  h.modify (fun hn => (Tab.setUser_user ..).trans (hg hn)) fun hf => by rwa [Tab.setUser_page] at hf

theorem Dark.intercept {i j : I} (h : Dark i s) (c : Call) (a : Answer) : Dark i (s.intercept j c a) := by
  unfold State.intercept
  split
  · exact (h.write none).setUser fun _ => rfl
  · exact h

theorem Dark.adoptToken {i j : I} (h : Dark i s) (t : Token) (id : String) : Dark i (s.adoptToken j t id) := by
  have hpage := h.setUser (j := j)
    (g := fun p => p.user.map fun u => if u.id = id then { u with token := some t } else u) fun hn => by rw [hn]; rfl
  unfold State.adoptToken
  simp only
  split
  · split
    · exact hpage.write _
    · exact hpage
  · exact hpage

/-- **A dark page stays so** while the session is only refreshed and used, and no storage event reaches it: the token that
it refreshed for itself does not bring it back. -/
theorem Dark.step {i : I} (h : Dark i s) (hchain : Chain id s w) (synchronous : Bool) {action : Action I}
    (hu : Using action) (hne : action ≠ .onStorage i) : Dark i (Session.step synchronous s action) := by
  cases action with
  | mount j =>
    simp only [Session.step]
    split
    · rename_i hfresh
      have hij : i ≠ j := by
        rintro rfl
        exact h.2 hfresh
      unfold Dark State.mount
      split
      · rw [State.modify_tab_of_ne hij]
        exact h
      · rw [State.modify_tab_of_ne hij]
        exact h
      · refine Dark.write ?_ none
        unfold Dark
        rw [State.modify_tab_of_ne hij]
        exact h
    · exact h
  | close j =>
    simp only [Session.step]
    split
    · exact h.modify (fun hn => hn) fun hf => by cases hf
    · exact h
  | call j request =>
    have hquiet : request.signsOut = false := by rcases (hu : request = .refresh ∨ request = .other) with rfl | rfl <;> rfl
    simp only [Session.step]
    split
    · rw [call_eq, hquiet]
      exact h.modify (fun hn => hn) fun hf => hf
    · exact h
  | serve j n luck =>
    simp only [Session.step]
    split
    · rename_i request stored sent hc
      have hbecome : Dark i (s.become (s.server.answer request sent luck).1) := by
        refine ⟨(Tab.evict_user ..).trans h.1, ?_⟩
        rw [State.become_tab]
        unfold Tab.evict
        split <;> exact h.2
      exact hbecome.modify (fun hn => hn) fun hf => hf
    · exact h
  | settle j n =>
    simp only [Session.step]
    split
    · rename_i request stored sent a hpage hc
      have hless : Dark i (s.modify j fun t => { t with calls := t.calls.eraseIdx n }) :=
        h.modify (fun hn => hn) fun hf => hf
      have hchained := hchain.calls j _ (List.mem_of_getElem? hc)
      cases a with
      | minted t =>
        obtain ⟨-, hrequest⟩ := hchained.brings t rfl
        obtain rfl : request = .refresh := hrequest
        simp only [State.settle, State.intercept_minted]
        exact hless.adoptToken t t.sub
      | _ => rcases hchained.request with hr | hr <;> obtain rfl := hr <;> exact hless.intercept _ _
    · exact h
  | onStorage j =>
    have hij : i ≠ j := by
      rintro rfl
      exact hne rfl
    simp only [Session.step]
    split
    · rename_i item inbox hpage hinbox
      have hless : Dark i (s.modify j fun t => { t with inbox := inbox }) := h.modify (fun hn => hn) fun hf => hf
      unfold State.onStorage
      split
      · exact hless.setUser (g := fun _ => none) fun _ => rfl
      · exact hless
      · unfold Dark
        rw [State.modify_tab_of_ne hij]
        exact hless
    · exact h
  | connect j =>
    simp only [Session.step]
    split
    · exact h.modify (fun hn => hn) fun hf => hf
    · exact h
  | sessionEnded j =>
    simp only [Session.step]
    split
    · exact h.setUser (g := fun _ => none) fun _ => rfl
    · exact h
  | kill p => cases hu

/-- A dark page stays so over a run. -/
theorem Dark.run {i : I} (h : Dark i s) (hchain : Chain id s w) (synchronous : Bool) (ops : List (Action I))
    (hu : ∀ a ∈ ops, Using a) (hne : ∀ a ∈ ops, a ≠ .onStorage i) :
    Dark i ((machine I synchronous).runFrom s ops) := by
  induction ops generalizing s w with
  | nil => exact h
  | cons a ops ih =>
    have ha : Using a := hu a List.mem_cons_self
    obtain ⟨w', hnext⟩ := hchain.step synchronous ha
    exact ih (h.step hchain synchronous ha (hne a List.mem_cons_self)) hnext
      (fun b hb => hu b (List.mem_cons_of_mem _ hb)) fun b hb => hne b (List.mem_cons_of_mem _ hb)

/-- **A refresh signs the page out that is told of it first**: once a page has handled the frame that its session ended,
it shows nobody, whatever answers it handles, until a storage event reaches it. Yet the session has not ended: what is
stored is a token that the server accepts, or the one that the server accepts is on its way. -/
theorem told_dark {s : State I} (h : Begun id s w) (synchronous : Bool) (i : I) (before after : List (Action I))
    (hu : ∀ a ∈ before ++ .sessionEnded i :: after, Using a)
    (hpage : (((machine I synchronous).runFrom s before).tab i).page ≠ .fresh)
    (hended : (((machine I synchronous).runFrom s before).tab i).ended = true)
    (hstorage : ∀ a ∈ after, a ≠ .onStorage i) :
    (((machine I synchronous).runFrom s (before ++ .sessionEnded i :: after)).tab i).user = none ∧
    ∀ t, readStoredToken ((machine I synchronous).runFrom s (before ++ .sessionEnded i :: after)).storage = some t →
      ((machine I synchronous).runFrom s (before ++ .sessionEnded i :: after)).server.dead t = false ∨
      Coming id ((machine I synchronous).runFrom s (before ++ .sessionEnded i :: after)) := by
  obtain ⟨w₀, hbefore⟩ := h.chain_run synchronous before fun a ha => hu a (List.mem_append_left _ ha)
  obtain ⟨w₁, hall⟩ := h.chain_run synchronous _ hu
  have hact : Using (.sessionEnded i : Action I) := hu _ (List.mem_append_right _ List.mem_cons_self)
  obtain ⟨w₂, htold⟩ := hbefore.step synchronous hact
  have hdark : Dark i (Session.step synchronous ((machine I synchronous).runFrom s before) (.sessionEnded i)) := by
    simp only [Session.step]
    rw [if_pos hended]
    refine ⟨?_, ?_⟩
    · rw [State.modify_tab_self, Tab.setUser_user]
    · rw [State.modify_tab_self, Tab.setUser_page]
      exact hpage
  have hrun := hdark.run htold synchronous after
    (fun a ha => hu a (List.mem_append_right _ (List.mem_cons_of_mem _ ha))) hstorage
  rw [Machine.runFrom_append] at hall ⊢
  exact ⟨hrun.1, fun t ht => hall.alive ht⟩

/-- One page, whose socket is connected. -/
def onePage : State Unit :=
  ⟨some (.user ⟨"u", some ⟨0, "u"⟩⟩), fun _ => ⟨.shown, some ⟨"u", some ⟨0, "u"⟩⟩, [], true, false, []⟩,
    ⟨1, fun _ => false⟩⟩

/-- It refreshes, is told that the session of its old token ended, and has the new token of the answer stored. -/
theorem told_dark_onePage :
    (((machine Unit false).runFrom onePage
      [.call () .refresh, .serve () 0 .serves, .sessionEnded (), .settle () 0]).tab ()).user = none ∧
    readStoredToken ((machine Unit false).runFrom onePage
      [.call () .refresh, .serve () 0 .serves, .sessionEnded (), .settle () 0]).storage = some ⟨1, "u"⟩ := by
  have hbegun : Begun "u" onePage ⟨0, "u"⟩ := ⟨rfl, rfl, rfl, by decide, fun _ _ => rfl, fun _ => rfl⟩
  have hdark := told_dark hbegun false () [.call () .refresh, .serve () 0 .serves] [.settle () 0] (by simp [Using])
    (by decide) (by decide) (by simp)
  exact ⟨hdark.1, by decide⟩

end Session
end WatchParty
