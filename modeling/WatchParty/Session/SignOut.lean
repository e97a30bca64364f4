import WatchParty.Session.Browser

/-!
# What a sign-out ends

`logout` makes its request, forgets the session, and only then does the request interceptor look for the token.

- `Sound`: the tokens of a browser are those of the accounts that they are shown and stored with;
- `attributed`: so it is in every run;
- `sign_out_revokes_iff`: the server stops trusting the token exactly where interceptors are synchronous.
-/

namespace WatchParty
namespace Session

/-- A user's token is one of that account, which the server minted. -/
def Owned (server : Server) (u : User) : Prop := ∀ t, u.token = some t → t.sub = u.id ∧ t.jti < server.next

/-- The tokens of a request that the client did not set itself were minted. -/
structure Call.Minted (server : Server) (c : Call) : Prop where
  stored : ∀ t, c.stored = some t → t.jti < server.next
  answer : ∀ t, c.answer = some (.minted t) → t.jti < server.next

/-- What is stored, shown and told of belongs together. -/
structure Sound {I : Type} (s : State I) : Prop where
  stored : ∀ u, s.storage = some (.user u) → Owned s.server u
  shown : ∀ j u, (s.tab j).user = some u → Owned s.server u
  told : ∀ j u, some (.user u) ∈ (s.tab j).inbox → Owned s.server u
  calls : ∀ j, ∀ c ∈ (s.tab j).calls, c.Minted s.server

variable {I : Type} [DecidableEq I] {s : State I} {i : I}

theorem Owned.mono {before after : Server} {u : User} (h : Owned before u) (hn : before.next ≤ after.next) :
    Owned after u := fun t ht => ⟨(h t ht).1, (h t ht).2.trans_le hn⟩

theorem readStoredToken_eq {item : Option Item} {t : Token} (h : readStoredToken item = some t) :
    ∃ u, item = some (.user u) ∧ u.token = some t := by
  cases item with
  | none => cases h
  | some item =>
    cases item with
    | user u => exact ⟨u, rfl, h⟩
    | malformed => cases h

namespace Sound

/-- A page changes. -/
theorem modify (h : Sound s) {f : Tab → Tab} (hu : ∀ u, (f (s.tab i)).user = some u → Owned s.server u)
    (hi : (f (s.tab i)).inbox ⊆ (s.tab i).inbox) (hc : ∀ c ∈ (f (s.tab i)).calls, c.Minted s.server) :
    Sound (s.modify i f) where
  stored := h.stored
  shown j u hj := by
    rcases eq_or_ne j i with rfl | hne
    · rw [State.modify_tab_self] at hj
      exact hu u hj
    · rw [State.modify_tab_of_ne hne] at hj
      exact h.shown j u hj
  told j u hj := by
    rcases eq_or_ne j i with rfl | hne
    · rw [State.modify_tab_self] at hj
      exact h.told j u (hi hj)
    · rw [State.modify_tab_of_ne hne] at hj
      exact h.told j u hj
  calls j c hj := by
    rcases eq_or_ne j i with rfl | hne
    · rw [State.modify_tab_self] at hj
      exact hc c hj
    · rw [State.modify_tab_of_ne hne] at hj
      exact h.calls j c hj

/-- A page shows another user. -/
theorem setUser (h : Sound s) {g : Tab → Option User} (hu : ∀ u, g (s.tab i) = some u → Owned s.server u) :
    Sound (s.modify i fun t => t.setUser (g t)) :=
  h.modify (fun u hg => hu u (by rwa [Tab.setUser_user] at hg)) (by rw [Tab.setUser_inbox]; exact List.Subset.refl _)
    (by rw [Tab.setUser_calls]; exact h.calls i)

/-- A value is stored, and the others are told. -/
theorem write (h : Sound s) {item : Option Item} (hitem : ∀ u, item = some (.user u) → Owned s.server u) :
    Sound (s.write i item) where
  stored u hu := by
    rw [State.write_storage] at hu
    rw [State.write_server]
    exact hitem u hu
  shown j u hu := by
    rw [State.write_user] at hu
    rw [State.write_server]
    exact h.shown j u hu
  told j u hu := by
    rw [State.write_server]
    rcases State.mem_write_inbox hu with hu | hu
    · exact h.told j u hu
    · exact hitem u hu.symm
  calls j c hc := by
    rw [State.write_calls] at hc
    rw [State.write_server]
    exact h.calls j c hc

theorem signedIn (h : Sound s) {u : User} (hu : Owned s.server u) : Sound (s.signedIn i u) := by
  refine (h.setUser (g := fun _ => some u) fun x hx => ?_).write fun x hx => ?_
  · cases hx
    exact hu
  · cases hx
    exact hu

/-- **An adopted token never meets another account**: both guards compare the id. -/
theorem adoptToken (h : Sound s) {t : Token} (ht : t.jti < s.server.next) : Sound (s.adoptToken i t t.sub) := by
  have hpage : Sound (s.modify i fun p =>
      p.setUser (p.user.map fun u => if u.id = t.sub then { u with token := some t } else u)) := by
    refine h.setUser fun u hu => ?_
    obtain ⟨x, hx, rfl⟩ := Option.map_eq_some_iff.mp hu
    split
    · rename_i hid
      rintro y ⟨⟩
      exact ⟨hid.symm, ht⟩
    · exact h.shown i x hx
  unfold State.adoptToken
  simp only
  split
  · rename_i u hu
    split
    · rename_i hid
      refine hpage.write fun x hx => ?_
      cases hx
      rintro y ⟨⟩
      exact ⟨hid.symm, ht⟩
    · exact hpage
  · exact hpage

theorem intercept (h : Sound s) (c : Call) (a : Answer) : Sound (s.intercept i c a) := by
  unfold State.intercept State.clearStoredUser
  split
  · refine (h.write fun u hu => ?_).setUser (g := fun _ => none) fun u hu => ?_
    · cases hu
    · cases hu
  · exact h

theorem settle (h : Sound s) {c : Call} {a : Answer} (ha : ∀ t, a = .minted t → t.jti < s.server.next) :
    Sound (s.settle i c a) := by
  have howned : ∀ t, t.jti < s.server.next → Owned s.server ⟨t.sub, some t⟩ := by
    rintro t ht x ⟨⟩
    exact ⟨rfl, ht⟩
  unfold State.settle
  split
  · rw [State.intercept_minted]
    exact h.adoptToken (ha _ rfl)
  · rw [State.intercept_minted]
    exact h.adoptToken (ha _ rfl)
  · rw [State.intercept_minted]
    exact h.signedIn (howned _ (ha _ rfl))
  · rw [State.intercept_minted]
    exact h.signedIn (howned _ (ha _ rfl))
  · exact h.intercept _ _

theorem onStorage (h : Sound s) {item : Option Item} (hitem : ∀ u, item = some (.user u) → Owned s.server u) :
    Sound (s.onStorage i item) := by
  unfold State.onStorage
  split
  · refine h.setUser (g := fun _ => none) fun u hu => ?_
    cases hu
  · exact h
  · rename_i next
    refine h.setUser fun u hu => ?_
    split at hu
    · cases hu
      exact hitem _ rfl
    · rename_i current hcurrent
      split at hu
      · cases hu
        exact hitem _ rfl
      · cases hu
        exact h.shown i _ hcurrent

omit [DecidableEq I] in
/-- The server goes on. -/
theorem become (h : Sound s) {after : Server} (hn : s.server.next ≤ after.next) : Sound (s.become after) where
  stored u hu := (h.stored u hu).mono hn
  shown j u hu := (h.shown j u (by rwa [State.become_tab, Tab.evict_user] at hu)).mono hn
  told j u hu := (h.told j u (by rwa [State.become_tab, Tab.evict_inbox] at hu)).mono hn
  calls j c hc := by
    rw [State.become_tab, Tab.evict_calls] at hc
    exact ⟨fun t ht => ((h.calls j c hc).stored t ht).trans_le hn, fun t ht => ((h.calls j c hc).answer t ht).trans_le hn⟩

end Sound

/-- The numbers of a server only rise, and what it mints has one of them. -/
theorem answer_next (request : Request) (sent : Option Token) (luck : Luck) (server : Server) :
    server.next ≤ (server.answer request sent luck).1.next ∧
    ∀ t, (server.answer request sent luck).2 = .minted t → t.jti < (server.answer request sent luck).1.next := by
  have hserve : ∀ t, server.next ≤ (server.serve request t).1.next ∧
      ∀ x, (server.serve request t).2 = .minted x → x.jti < (server.serve request t).1.next := by
    intro t
    cases request <;> simp [Server.serve, Server.mint, Server.kill]
  have hrefusal : ∀ t, Server.refusal request ≠ .minted t := by
    intro t
    cases request <;> exact fun h => by cases h
  unfold Server.answer
  split
  · simp
  · simp
  · simp only [Server.mint, Answer.minted.injEq]
    exact ⟨Nat.le_succ _, fun t ht => ht ▸ Nat.lt_succ_self _⟩
  · simp [Server.mint]
  · simp
  · exact ⟨le_rfl, fun t ht => absurd ht (hrefusal t)⟩
  · exact hserve _
  · exact ⟨(hserve _).1, fun t ht => by cases ht⟩

namespace Sound

theorem mount (h : Sound s) : Sound (s.mount i) := by
  unfold State.mount
  split
  · exact h.modify (h.shown i) (List.Subset.refl _) (h.calls i)
  · rename_i u hu
    refine h.modify (fun x hx => ?_) (List.Subset.refl _) (h.calls i)
    cases hx
    exact h.stored u hu
  · refine (h.modify (h.shown i) (List.Subset.refl _) (h.calls i)).write fun u hu => ?_
    cases hu

/-- **Every step keeps it.** -/
theorem step (h : Sound s) (synchronous : Bool) (action : Action I) : Sound (step synchronous s action) := by
  cases action with
  | mount i =>
    simp only [Session.step]
    split
    · exact h.mount
    · exact h
  | close i =>
    simp only [Session.step]
    split
    · exact h.modify (h.shown i) (List.Subset.refl _) (h.calls i)
    · exact h
  | call i request =>
    simp only [Session.step]
    split
    · rw [call_eq]
      have hmade : (made synchronous s request).Minted s.server := by
        refine ⟨fun t ht => ?_, fun t ht => by cases ht⟩
        obtain ⟨u, hu, hut⟩ := readStoredToken_eq ht
        exact (h.stored u hu t hut).2
      have hforgot : Sound (if request.signsOut then (s.modify i (Tab.setUser none)).write i none else s) := by
        split
        · refine (h.setUser (g := fun _ => none) fun u hu => ?_).write fun u hu => ?_
          · cases hu
          · cases hu
        · exact h
      have hserver : (if request.signsOut then (s.modify i (Tab.setUser none)).write i none else s).server = s.server := by
        split
        · exact State.write_server
        · rfl
      refine hforgot.modify (hforgot.shown i) (List.Subset.refl _) fun c hc => ?_
      rcases List.mem_append.mp hc with hc | hc
      · exact hforgot.calls i c hc
      · rw [List.mem_singleton.mp hc, hserver]
        exact hmade
    · exact h
  | serve i n luck =>
    simp only [Session.step]
    split
    · rename_i request stored sent hc
      obtain ⟨hnext, hminted⟩ := answer_next request sent luck s.server
      have hbecome := h.become hnext
      refine hbecome.modify (hbecome.shown i) (List.Subset.refl _) fun c hmem => ?_
      rcases List.mem_or_eq_of_mem_set hmem with hmem | rfl
      · exact hbecome.calls i c hmem
      · have hold := h.calls i _ (List.mem_of_getElem? hc)
        exact ⟨fun t ht => (hold.stored t ht).trans_le hnext, fun t ht => hminted t (Option.some.inj ht)⟩
    · exact h
  | settle i n =>
    simp only [Session.step]
    split
    · rename_i request stored sent a hpage hc
      have hless : Sound (s.modify i fun t => { t with calls := t.calls.eraseIdx n }) :=
        h.modify (h.shown i) (List.Subset.refl _) fun c hmem => h.calls i c (List.mem_of_mem_eraseIdx hmem)
      refine hless.settle fun t ht => ?_
      subst ht
      exact (h.calls i _ (List.mem_of_getElem? hc)).answer t rfl
    · exact h
  | onStorage i =>
    simp only [Session.step]
    split
    · rename_i item inbox hpage hinbox
      have hless : Sound (s.modify i fun t => { t with inbox := inbox }) :=
        h.modify (h.shown i) (by rw [hinbox]; exact List.subset_cons_self _ _) (h.calls i)
      refine hless.onStorage fun u hu => ?_
      subst hu
      exact h.told i u (by rw [hinbox]; exact List.mem_cons_self)
    · exact h
  | connect i =>
    simp only [Session.step]
    split
    · exact h.modify (h.shown i) (List.Subset.refl _) (h.calls i)
    · exact h
  | sessionEnded i =>
    simp only [Session.step]
    split
    · refine h.setUser (g := fun _ => none) fun u hu => ?_
      cases hu
    · exact h
  | kill p => exact h.become le_rfl

end Sound

theorem sound (synchronous : Bool) (ops : List (Action I)) : Sound ((machine I synchronous).run ops) := by
  refine (machine I synchronous).invariant_state ?_ (fun s a h => h.step synchronous a) ops
  refine ⟨fun u hu => ?_, fun j u hu => ?_, fun j u hu => ?_, fun j c hc => ?_⟩
  · cases hu
  · cases hu
  · exact absurd hu List.not_mem_nil
  · exact absurd hc List.not_mem_nil

/-- **No page shows, stores or tells of one account with a token of another**, in whatever order pages sign in and out
and tokens are adopted: an answer that was on its way is never merged into who signed in meanwhile. -/
theorem attributed (synchronous : Bool) (ops : List (Action I)) (u : User) (t : Token) (hu : u.token = some t)
    (h : ((machine I synchronous).run ops).storage = some (.user u) ∨
      ∃ j, (((machine I synchronous).run ops).tab j).user = some u ∨
        some (.user u) ∈ (((machine I synchronous).run ops).tab j).inbox) : t.sub = u.id := by
  have hsound := sound synchronous ops
  rcases h with h | ⟨j, h | h⟩
  · exact (hsound.stored u h t hu).1
  · exact (hsound.shown j u h t hu).1
  · exact (hsound.told j u h t hu).1

/-- A page refreshes, and another account signs in on another page before the answer is handled. -/
def crossing : List (Action Bool) :=
  [.mount true, .call true (.signIn "u"), .serve true 0 .serves, .settle true 0, .call true .refresh, .serve true 0 .serves,
    .mount false, .call false (.signIn "v"), .serve false 0 .serves, .settle false 0, .settle true 0]

theorem attributed_crossing : (((machine Bool false).run crossing).tab true).user = some ⟨"u", some ⟨1, "u"⟩⟩ ∧
    ((machine Bool false).run crossing).storage = some (.user ⟨"v", some ⟨2, "v"⟩⟩) ∧ (⟨2, "v"⟩ : Token).sub = "v" :=
  ⟨by decide, by decide, attributed false crossing ⟨"v", some ⟨2, "v"⟩⟩ _ rfl (Or.inl (by decide))⟩

/-! ## Signing out -/

abbrev Event (I : Type) := Machine.Event (State I) (Action I) Unit

/-- The event serves a request of `logout`, which was made while `stored` was stored. -/
def ServesSignOut (stored : Option Token) (e : Event I) : Prop :=
  ∃ i n luck c, e.act = .serve i n luck ∧ (luck = .serves ∨ luck = .lost) ∧ (e.pre.tab i).calls[n]? = some c ∧
    c.answer = none ∧ c.request.signsOut = true ∧ c.stored = stored

/-- The requests of `logout` carry the token that was stored, or none: it was forgotten when the interceptor ran. -/
def Forgot (synchronous : Bool) (s : State I) : Prop :=
  ∀ j, ∀ c ∈ (s.tab j).calls, c.request.signsOut = true → c.sent = if synchronous then c.stored else none

theorem forgot (synchronous : Bool) (ops : List (Action I)) : Forgot synchronous ((machine I synchronous).run ops) := by
  refine (machine I synchronous).invariant_state (fun j c hc => absurd hc List.not_mem_nil) (fun s a h j c hc hout => ?_) ops
  rcases mem_calls_step hc with hc | ⟨request, -, rfl⟩ | ⟨n, luck, c₀, -, hc₀, -, rfl⟩
  · exact h j c hc hout
  · have hheader : ∀ x, request.header x = x := by
      intro x
      cases request <;> first | rfl | cases hout
    have hreads : request.signsOut = true := hout
    simp only [made, hheader, hreads]
    cases synchronous <;> simp
  · exact h j c₀ (List.mem_of_getElem? hc₀) hout

theorem Request.signsOut_iff {request : Request} :
    request.signsOut = true ↔ request = .logout ∨ request = .logoutEverywhere := by
  cases request <;> simp [Request.signsOut]

/-- The server does nothing for a sign-out without a token. -/
theorem answer_signsOut_none {request : Request} (h : request.signsOut = true) (luck : Luck) (server : Server) :
    (server.answer request none luck).1 = server := by
  rcases Request.signsOut_iff.mp h with rfl | rfl <;> cases luck <;> rfl

/-- A sign-out that is served ends the token that it carries. -/
theorem answer_signsOut_some {request : Request} (h : request.signsOut = true) {luck : Luck}
    (hl : luck = .serves ∨ luck = .lost) {t : Token} {server : Server} (ht : t.jti < server.next) :
    (server.answer request (some t) luck).1.dead t = true := by
  cases hd : server.dead t with
  | true =>
    have hadmitted : server.admitted (some t) = none := by simp [Server.admitted, hd]
    rcases Request.signsOut_iff.mp h with rfl | rfl <;> rcases hl with rfl | rfl <;> simp [Server.answer, hadmitted, hd]
  | false =>
    have hadmitted : server.admitted (some t) = some t := by simp [Server.admitted, hd]
    rcases Request.signsOut_iff.mp h with rfl | rfl <;> rcases hl with rfl | rfl <;>
      simp [Server.answer, hadmitted, Server.serve, Server.kill, ht]

/-- A page signs in and out. -/
def inAndOut (i : I) : List (Action I) :=
  [.mount i, .call i (.signIn "u"), .serve i 0 .serves, .settle i 0, .call i .logout]

/-- Its sign-out is on its way, for a token that is accepted. -/
theorem inAndOut_run (i : I) (synchronous : Bool) :
    (((machine I synchronous).run (inAndOut i)).tab i).calls =
      [⟨.logout, some ⟨0, "u"⟩, if synchronous then some ⟨0, "u"⟩ else none, none⟩] ∧
    ((machine I synchronous).run (inAndOut i)).server.dead ⟨0, "u"⟩ = false := by
  let shown : Tab := ⟨.shown, none, [], false, false, []⟩
  have h1 : ∀ s : State I, s = State.initial I → (step synchronous s (.mount i)).storage = none ∧
      (step synchronous s (.mount i)).tab i = shown ∧ (step synchronous s (.mount i)).server = ⟨0, fun _ => false⟩ := by
    rintro s rfl
    simp [step, State.mount, State.initial, Tab.fresh, shown]
  have h2 : ∀ s : State I, s.storage = none ∧ s.tab i = shown ∧ s.server = ⟨0, fun _ => false⟩ →
      (step synchronous s (.call i (.signIn "u"))).storage = none ∧
      (step synchronous s (.call i (.signIn "u"))).tab i = { shown with calls := [⟨.signIn "u", none, none, none⟩] } ∧
      (step synchronous s (.call i (.signIn "u"))).server = ⟨0, fun _ => false⟩ := by
    rintro s ⟨hs, ht, hv⟩
    simp [step, State.call, hs, ht, hv, Request.signsOut, Request.header, readStoredToken, shown]
  have h3 : ∀ s : State I, s.storage = none ∧ s.tab i = { shown with calls := [⟨.signIn "u", none, none, none⟩] } ∧
      s.server = ⟨0, fun _ => false⟩ →
      (step synchronous s (.serve i 0 .serves)).storage = none ∧
      (step synchronous s (.serve i 0 .serves)).tab i =
        { shown with calls := [⟨.signIn "u", none, none, some (.minted ⟨0, "u"⟩)⟩] } ∧
      (step synchronous s (.serve i 0 .serves)).server = ⟨1, fun _ => false⟩ := by
    rintro s ⟨hs, ht, hv⟩
    simp [step, hs, ht, hv, Server.answer, Server.mint, Tab.evict, shown]
  have h4 : ∀ s : State I, s.storage = none ∧
      s.tab i = { shown with calls := [⟨.signIn "u", none, none, some (.minted ⟨0, "u"⟩)⟩] } ∧
      s.server = ⟨1, fun _ => false⟩ →
      (step synchronous s (.settle i 0)).storage = some (.user ⟨"u", some ⟨0, "u"⟩⟩) ∧
      (step synchronous s (.settle i 0)).tab i = { shown with user := some ⟨"u", some ⟨0, "u"⟩⟩ } ∧
      (step synchronous s (.settle i 0)).server = ⟨1, fun _ => false⟩ := by
    rintro s ⟨hs, ht, hv⟩
    simp [step, hs, ht, hv, State.settle, State.signedIn, State.write, Tab.setUser, Tab.token, shown]
  have h5 : ∀ s : State I, s.storage = some (.user ⟨"u", some ⟨0, "u"⟩⟩) ∧
      s.tab i = { shown with user := some ⟨"u", some ⟨0, "u"⟩⟩ } ∧ s.server = ⟨1, fun _ => false⟩ →
      ((step synchronous s (.call i .logout)).tab i).calls =
        [⟨.logout, some ⟨0, "u"⟩, if synchronous then some ⟨0, "u"⟩ else none, none⟩] ∧
      (step synchronous s (.call i .logout)).server.dead ⟨0, "u"⟩ = false := by
    rintro s ⟨hs, ht, hv⟩
    simp [step, State.call, State.write, hs, ht, hv, Request.signsOut, Request.header, readStoredToken, Tab.setUser, Tab.token,
      shown]
  exact h5 _ (h4 _ (h3 _ (h2 _ (h1 _ rfl))))

/-- **A sign-out ends the token that it forgets exactly where the interceptors of axios are synchronous**: in every run
each request of `logout` that the server serves ends what was stored when it was made, or each leaves the server as it
was. -/
theorem sign_out_revokes_iff (i : I) (synchronous : Bool) :
    ((∀ ops : List (Action I), ∀ e ∈ (machine I synchronous).trace ops, ∀ t, ServesSignOut (some t) e →
        e.post.server.dead t = true) ↔ synchronous = true) ∧
    (synchronous = false → ∀ ops : List (Action I), ∀ e ∈ (machine I synchronous).trace ops, ∀ stored,
      ServesSignOut stored e → e.post.server = e.pre.server) := by
  have hserves : ∀ {stored : Option Token} {ops : List (Action I)} {e : Event I}, e ∈ (machine I synchronous).trace ops →
      ServesSignOut stored e → ∃ request luck, request.signsOut = true ∧ (luck = .serves ∨ luck = .lost) ∧
        (∀ t, stored = some t → t.jti < e.pre.server.next) ∧
        e.post.server = (e.pre.server.answer request (if synchronous then stored else none) luck).1 := by
    rintro stored ops e he ⟨j, n, luck, ⟨request, _, sent, _⟩, hact, hl, hc, rfl, hout, rfl⟩
    obtain ⟨bs, a, -, rfl⟩ := Machine.mem_trace _ he
    simp only [Machine.event_pre, Machine.event_act] at hact hc ⊢
    subst hact
    have hmem := List.mem_of_getElem? hc
    refine ⟨request, luck, hout, hl, ((sound synchronous bs).calls j _ hmem).stored, ?_⟩
    rw [Machine.event_post, ← forgot synchronous bs j _ hmem hout]
    simp only [machine, step] at hc ⊢
    simp [hc]
  refine ⟨⟨fun h => ?_, fun hs ops e he t ht => ?_⟩, fun hs ops e he stored hserved => ?_⟩
  · by_contra hs
    rw [Bool.not_eq_true] at hs
    subst hs
    obtain ⟨hcalls, hlive⟩ := inAndOut_run i false
    have hcall : (((machine I false).run (inAndOut i)).tab i).calls[0]? = some ⟨.logout, some ⟨0, "u"⟩, none, none⟩ := by
      rw [hcalls]
      rfl
    let e : Event I := (machine I false).event ((machine I false).run (inAndOut i)) (.serve i 0 .serves)
    have hmem : e ∈ (machine I false).trace (inAndOut i ++ [.serve i 0 .serves]) := by
      rw [Machine.trace_snoc]
      exact List.mem_append_right _ (List.mem_singleton_self e)
    have hserved : ServesSignOut (some ⟨0, "u"⟩) e := ⟨i, 0, .serves, _, rfl, Or.inl rfl, hcall, rfl, rfl, rfl⟩
    obtain ⟨request, luck, hout, -, -, hpost⟩ := hserves hmem hserved
    have hdead := h _ e hmem _ hserved
    rw [hpost] at hdead
    have hsame := answer_signsOut_none hout luck e.pre.server
    rw [show (if false = true then some (⟨0, "u"⟩ : Token) else none) = none from rfl, hsame] at hdead
    exact absurd hdead (by rw [show e.pre.server.dead ⟨0, "u"⟩ = false from hlive]; decide)
  · obtain ⟨request, luck, hout, hl, hminted, hpost⟩ := hserves he ht
    rw [hpost, hs]
    exact answer_signsOut_some hout hl (hminted t rfl)
  · obtain ⟨request, luck, hout, -, -, hpost⟩ := hserves he hserved
    rw [hpost, hs]
    exact answer_signsOut_none hout luck _

end Session
end WatchParty
