import WatchParty.Formal.Clients
import WatchParty.Lib.Ranks
import WatchParty.Shared.Order

/-!
# The shared-script plane implements its specification

The store's scripts and the clients of a room, with everything that instances were answered in flight for ever, against
`formal/SyncTimeline.tla` under the ordered rule. A birth that finds no timeline is the first commit of the
specification or a flush of it, a control and a snapshot are commits, and an answer that a client does not take is no
step; so every run of the plane is a behaviour of the specification.

- `specVersion`: the version of the specification that a timeline has, which counts incarnations and what was written
  of one;
- `Implements` relates the two; `Implements.operate` and `Implements.deliver` are the simulation, `implements_timeline`
  the refinement.
-/

namespace WatchParty
namespace Plane

open SyncTimeline (Version fan NoTimeline Tracks Numbers)
open Ranks

variable {C : Type}

/-! ## Versions of the specification -/

/-- The epochs of the incarnations of a run, oldest first. -/
def incarnations (tr : List Event) : List ℚ := (mints tr).map (Nat.cast : ℕ → ℚ)

/-- The number of the incarnation, and how often it was written. -/
def specVersion (es : List ℚ) (tl : Timeline) : Version := ⟨rank es tl.storeEpoch, tl.seq + 1⟩

/-- The two orders of versions agree on the incarnations of a run. -/
theorem specVersion_lt_iff {es : List ℚ} {a b : Timeline} (ha : a.storeEpoch ∈ es) (hb : b.storeEpoch ∈ es) :
    specVersion es a < specVersion es b ↔ a.version < b.version := by
  rw [SyncTimeline.Version.lt_iff, version_lt_iff]
  simp only [specVersion, rank_lt_iff hb, rank_inj ha hb, Nat.add_lt_add_iff_right]

/-- Every commit is of an incarnation of the run. -/
theorem Ordered.mem_incarnations {tr : List Event} {σ : Room} (h : Ordered tr σ) {tl : Timeline} (htl : tl ∈ commits σ) :
    tl.storeEpoch ∈ incarnations tr := by
  obtain ⟨n, hn, he⟩ := h.epochs tl htl
  exact List.mem_map.mpr ⟨n, hn, he.symm⟩

/-- No commit is of a later incarnation than the newest. -/
theorem Ordered.epoch_le_last {tr : List Event} {σ : Room} (h : Ordered tr σ) {tl : Timeline}
    (hlast : (commits σ).getLast? = some tl) : ∀ x ∈ commits σ, x.storeEpoch ≤ tl.storeEpoch := by
  intro x hx
  obtain ⟨init, hs⟩ := List.getLast?_eq_some_iff.mp hlast
  have hmono := h.mono
  rw [hs] at hmono hx
  rcases List.mem_append.mp hx with hx | hx
  · have hlt := (List.pairwise_append.mp hmono).2.2 x hx tl (List.mem_singleton_self tl)
    exact (version_lt_iff.mp hlt).elim le_of_lt fun h => h.1.le
  · rw [List.mem_singleton.mp hx]

/-- An event that mints an epoch is an init that finds no timeline. -/
theorem mint_eq_some {e : Event} {n : ℕ} :
    mint e = some n ↔ e.pre.now = n ∧ e.pre.loadTl = none ∧ ∃ videoId mediaTime trim, e.act = .init videoId mediaTime trim := by
  unfold mint
  split
  · rename_i videoId mediaTime trim hact hnone
    exact ⟨fun h => ⟨Option.some.inj h, hnone, videoId, mediaTime, trim, hact⟩, fun h => congrArg some h.1⟩
  · rename_i hno
    refine ⟨fun h => absurd h.symm (Option.some_ne_none n), ?_⟩
    rintro ⟨-, hnone, videoId, mediaTime, trim, hact⟩
    exact absurd hnone (hno videoId mediaTime trim hact)

/-- An init that finds no timeline writes one. -/
theorem Step.init_saves {σ σ' : Room} {videoId : Option String} {mediaTime : ℚ} {trim : ℕ} {o : Out}
    (h : Step σ (.init videoId mediaTime trim) o σ') (hnone : σ.loadTl = none) :
    σ'.saves = σ.saves ++ [Lua.born (textOf videoId) mediaTime σ.now] := by
  cases h with
  | found _ _ _ tl hl =>
    rw [hnone] at hl
    cases hl
  | birth _ _ _ new hl hnew => rw [Lua.committed_saves, hnew]

/-- Every incarnation of a run was written. -/
theorem minted_committed (ops : List Op) :
    ∀ e ∈ incarnations (machine.trace ops), ∃ tl ∈ commits (machine.run ops), tl.storeEpoch = e := by
  refine machine.invariant (I := fun tr σ => ∀ e ∈ incarnations tr, ∃ tl ∈ commits σ, tl.storeEpoch = e)
    (fun e he => absurd he List.not_mem_nil) (fun tr σ op hI => ?_) ops
  have hs := event_cases σ op
  intro e he
  rw [incarnations, mints_snoc, List.map_append, List.mem_append] at he
  rcases he with he | he
  · obtain ⟨tl, htl, heq⟩ := hI e he
    exact ⟨tl, (hs.saves_grow.map TlHash.toTimeline).subset htl, heq⟩
  · obtain ⟨n, hn, rfl⟩ := List.mem_map.mp he
    rw [Option.mem_toList, mint_eq_some] at hn
    obtain ⟨rfl, hnone, videoId, mediaTime, trim, hop⟩ := hn
    change op = _ at hop
    subst hop
    refine ⟨(Lua.born (textOf videoId) mediaTime σ.now).toTimeline, ?_, rfl⟩
    have hsaves : (machine.step σ (.init videoId mediaTime trim)).1.saves = _ := hs.init_saves hnone
    rw [commits, hsaves, List.map_append]
    exact List.mem_append_right _ (List.mem_singleton_self _)

/-- The two orders of versions agree on what is committed. -/
theorem Ordered.numbers {tr : List Event} {σ : Room} (h : Ordered tr σ) :
    Numbers (specVersion (incarnations tr)) {tl | tl ∈ commits σ} where
  pos _ htl := rank_pos (h.mem_incarnations htl)
  lt_iff _ ha _ hb := specVersion_lt_iff (h.mem_incarnations ha) (h.mem_incarnations hb)

/-! ## The simulation -/

/-- A state of the specification stands for a room with its clients: it holds the newest version, and its clients are
those of the room. -/
structure Implements (es : List ℚ) (s : Fanout Room C) (t : SyncTimeline.State C) : Prop where
  store : t.store = (match (commits s.store).getLast? with
    | none => ⟨1, 0⟩
    | some tl => specVersion es tl)
  clients : Tracks (specVersion es) {tl | tl ∈ commits s.store} s.held t.network t.applied

variable {k : SyncTimeline.Constants} {es : List ℚ} {s : Fanout Room C} {t : SyncTimeline.State C}

/-- An operation that commits nothing is no step. -/
theorem Implements.keep (h : Implements es s t) {room : Room} (em : List Timeline) (hsaves : room.saves = s.store.saves) :
    Implements es ⟨room, em, s.held⟩ t := by
  have hc : commits room = commits s.store := congrArg (List.map TlHash.toTimeline) hsaves
  constructor
  · rw [hc]
    exact h.store
  · simp only [hc]
    exact h.clients

/-- What the specification holds after another version is committed. -/
theorem Implements.emit (h : Implements es s t) {es' : List ℚ} {room : Room} (em : List Timeline) {new : TlHash}
    (hsame : ∀ tl ∈ commits s.store, specVersion es' tl = specVersion es tl)
    (hsaves : room.saves = s.store.saves ++ [new]) :
    Implements es' ⟨room, em, s.held⟩
      { t with storeEpoch := (specVersion es' new.toTimeline).epoch, storeSeq := (specVersion es' new.toTimeline).seq,
               network := t.network ∪ fan (specVersion es' new.toTimeline) } := by
  have hc : commits room = commits s.store ++ [new.toTimeline] := by rw [commits, hsaves, List.map_append]; rfl
  constructor
  · rw [hc, List.getLast?_concat]
    rfl
  · simp only [hc]
    refine (h.clients.congr hsame).fan (fun tl htl => List.mem_append_left _ htl) fun tl htl => ?_
    rcases List.mem_append.mp htl with htl | htl
    · exact Or.inl htl
    · exact Or.inr (congrArg _ (List.mem_singleton.mp htl))

/-- What the specification holds of a stored hash. -/
theorem Implements.loaded {tr : List Event} (h : Implements es s t) (hO : Ordered tr s.store) {tl : TlHash}
    (hl : s.store.loadTl = some tl) : t.store = specVersion es tl.toTimeline := by
  have hlast : (commits s.store).getLast? = some tl.toTimeline := by
    rw [commits, List.getLast?_map, hO.newest tl hl]
    rfl
  rw [h.store, hlast]

variable [DecidableEq C]

theorem implements_init : Implements [] (fanout machine Out.carried C).init
    { storeEpoch := 1, storeSeq := 0, network := ∅, applied := fun _ => NoTimeline, deadEpochs := fun _ => ∅ } where
  store := rfl
  clients := Tracks.init fun _ => List.not_mem_nil

/-- A delivery is one of the specification, where the client takes it, and no step where it does not. -/
theorem Implements.deliver (hk : k.ClientRule = .ordered) {tr : List Event} (h : Implements (incarnations tr) s t)
    (hO : Ordered tr s.store) (hsent : ∀ tl ∈ s.emitted, tl ∈ commits s.store) (c : C) (tl : Timeline) :
    ∃ t', Relation.ReflTransGen (SyncTimeline.Next k) t t' ∧
      Implements (incarnations tr) ((fanout machine Out.carried C).step s (.deliver c tl)).1 t' := by
  simp only [fanout, fanoutStep]
  split
  · rename_i hin
    rcases h.clients.deliver hO.numbers (hsent tl hin) c with heq | ⟨hlt, hflight, hclients⟩
    · rw [heq]
      exact ⟨t, .refl, h⟩
    · have haccept : SyncTimeline.Accept k.ClientRule t ⟨specVersion (incarnations tr) tl, c⟩ := by
        rw [hk]
        exact (SyncTimeline.Version.lt_iff.mp hlt).imp id fun h => ⟨h.1.symm, h.2⟩
      exact ⟨_, .single (Or.inr (Or.inr (Or.inl ⟨_, hflight, Or.inl ⟨haccept, rfl⟩⟩))), h.store, hclients⟩
  · exact ⟨t, .refl, h⟩

/-- A commit of the specification. -/
theorem next_commit (t : SyncTimeline.State C) {v : Version} (hv : v = ⟨t.storeEpoch, t.storeSeq + 1⟩)
    (hq : t.storeSeq < k.MaxSeq) :
    SyncTimeline.Next k t { t with storeEpoch := v.epoch, storeSeq := v.seq, network := t.network ∪ fan v } := by
  subst hv
  exact Or.inl ⟨hq, rfl⟩

/-- A flush of the specification. -/
theorem next_flush (t : SyncTimeline.State C) {v : Version} (hv : v = ⟨t.storeEpoch + 1, 1⟩)
    (he : t.storeEpoch < k.MaxEpoch) :
    SyncTimeline.Next k t { t with storeEpoch := v.epoch, storeSeq := v.seq, network := t.network ∪ fan v } := by
  subst hv
  exact Or.inr (Or.inl ⟨he, rfl⟩)

/-- A control or a snapshot is a commit of the specification. -/
theorem Implements.restamp {tr : List Event} (h : Implements es s t) (hO : Ordered tr s.store) {room : Room}
    (em : List Timeline) {tl new : TlHash} (hl : s.store.loadTl = some tl) (he : new.storeEpoch = tl.storeEpoch)
    (hseq : new.seq = tl.seq + 1) (hq : new.seq < k.MaxSeq) (hsaves : room.saves = s.store.saves ++ [new]) :
    ∃ t', Relation.ReflTransGen (SyncTimeline.Next k) t t' ∧ Implements es ⟨room, em, s.held⟩ t' := by
  have hstore := h.loaded hO hl
  have hepoch : t.storeEpoch = rank es tl.storeEpoch := congrArg Version.epoch hstore
  have hold : t.storeSeq = tl.seq + 1 := congrArg Version.seq hstore
  refine ⟨_, .single (next_commit t ?_ (by omega)), h.emit em (fun _ _ => rfl) hsaves⟩
  rw [hepoch, hold, ← hseq, ← he]
  rfl

/-- A birth is the first commit of the specification, or a flush. -/
theorem Implements.birth {tr : List Event} (h : Implements (incarnations tr) s t) (hO : Ordered tr s.store)
    (hwritten : ∀ e ∈ incarnations tr, ∃ tl ∈ commits s.store, tl.storeEpoch = e) {room : Room} (em : List Timeline)
    {videoId : String} {mediaTime : ℚ} (hfresh : s.store.now ∉ mints tr) (he : (mints tr).length < k.MaxEpoch)
    (hq : 0 < k.MaxSeq) (hsaves : room.saves = s.store.saves ++ [Lua.born videoId mediaTime s.store.now]) :
    ∃ t', Relation.ReflTransGen (SyncTimeline.Next k) t t' ∧
      Implements (incarnations tr ++ [(s.store.now : ℚ)]) ⟨room, em, s.held⟩ t' := by
  have hpast : ∀ tl ∈ commits s.store, tl.storeEpoch < s.store.now := by
    intro tl htl
    have hbelow : tl.version < (Lua.born videoId mediaTime s.store.now).toTimeline.version := hO.lt_born hfresh tl htl
    rcases version_lt_iff.mp hbelow with hlt | ⟨-, hlt⟩
    · exact hlt
    · exact absurd hlt (Nat.not_lt_zero _)
  have hnumber : specVersion (incarnations tr ++ [(s.store.now : ℚ)])
      (Lua.born videoId mediaTime s.store.now).toTimeline = ⟨(mints tr).length + 1, 1⟩ := by
    refine SyncTimeline.Version.ext ?_ rfl
    have htop : ∀ e ∈ incarnations tr ++ [(s.store.now : ℚ)], e ≤ s.store.now := by
      intro e hin
      rcases List.mem_append.mp hin with hin | hin
      · obtain ⟨n, hn, rfl⟩ := List.mem_map.mp hin
        exact Nat.cast_le.mpr (hO.past n hn)
      · exact (List.mem_singleton.mp hin).le
    exact (rank_top htop).trans (by simp [incarnations])
  have hsame : ∀ tl ∈ commits s.store,
      specVersion (incarnations tr ++ [(s.store.now : ℚ)]) tl = specVersion (incarnations tr) tl := fun tl htl =>
    SyncTimeline.Version.ext (rank_snoc (hpast tl htl)) rfl
  refine ⟨_, .single ?_, h.emit em hsame hsaves⟩
  rw [hnumber]
  cases hlast : (commits s.store).getLast? with
  | none =>
    -- nothing was ever written, so there was no incarnation
    have hstore := h.store
    rw [hlast] at hstore
    have hnone : commits s.store = [] := List.getLast?_eq_none_iff.mp hlast
    have hempty : mints tr = [] := by
      rw [← List.map_eq_nil_iff (f := (Nat.cast : ℕ → ℚ))]
      refine List.eq_nil_iff_forall_not_mem.mpr fun e hin => ?_
      obtain ⟨tl, htl, -⟩ := hwritten e hin
      rw [hnone] at htl
      exact List.not_mem_nil htl
    have hepoch : t.storeEpoch = 1 := congrArg Version.epoch hstore
    have hseq : t.storeSeq = 0 := congrArg Version.seq hstore
    refine next_commit t ?_ (by omega)
    rw [hepoch, hseq, hempty]
    rfl
  | some tl =>
    have hstore := h.store
    rw [hlast] at hstore
    have htop : t.storeEpoch = (mints tr).length := by
      have hrank : rank (incarnations tr) tl.storeEpoch = (incarnations tr).length := by
        refine rank_top fun e hin => ?_
        obtain ⟨x, hx, rfl⟩ := hwritten e hin
        exact hO.epoch_le_last hlast x hx
      exact (congrArg Version.epoch hstore).trans (hrank.trans (by simp [incarnations]))
    refine next_flush t ?_ (by omega)
    rw [htop]

/-- **One operation of the store** is at most one step of the specification. -/
theorem Implements.operate {tr : List Event} {op : Op} (h : Implements (incarnations tr) s t) (em : List Timeline)
    (hO : Ordered tr s.store) (hwritten : ∀ e ∈ incarnations tr, ∃ tl ∈ commits s.store, tl.storeEpoch = e)
    (hmint : (mints (tr ++ [machine.event s.store op])).Nodup)
    (he : (mints (tr ++ [machine.event s.store op])).length ≤ k.MaxEpoch)
    (hq : ∀ tl ∈ commits (machine.step s.store op).1, tl.seq < k.MaxSeq) :
    ∃ t', Relation.ReflTransGen (SyncTimeline.Next k) t t' ∧
      Implements (incarnations (tr ++ [machine.event s.store op])) ⟨(machine.step s.store op).1, em, s.held⟩ t' := by
  have hnew : ∀ new : TlHash, (machine.step s.store op).1.saves = s.store.saves ++ [new] → new.seq < k.MaxSeq := by
    intro new hsaves
    refine hq new.toTimeline ?_
    rw [commits, hsaves, List.map_append]
    exact List.mem_append_right _ (List.mem_singleton_self _)
  have hsame : mint (machine.event s.store op) = none →
      incarnations (tr ++ [machine.event s.store op]) = incarnations tr := by
    intro hnone
    rw [incarnations, mints_snoc, hnone, Option.toList_none, List.append_nil, incarnations]
  by_cases hbirth : ∃ videoId mediaTime trim, op = .init videoId mediaTime trim ∧ s.store.loadTl = none
  · obtain ⟨videoId, mediaTime, trim, rfl, hnone⟩ := hbirth
    have hm : mint (machine.event s.store (.init videoId mediaTime trim)) = some s.store.now :=
      mint_eq_some.mpr ⟨rfl, hnone, videoId, mediaTime, trim, rfl⟩
    have hsaves : (machine.step s.store (.init videoId mediaTime trim)).1.saves = _ :=
      (event_cases s.store (.init videoId mediaTime trim)).init_saves hnone
    rw [mints_snoc, hm, Option.toList_some] at hmint he
    rw [List.length_append, List.length_singleton] at he
    have hfresh : s.store.now ∉ mints tr := fun hin =>
      (List.nodup_append.mp hmint).2.2 _ hin _ (List.mem_singleton_self _) rfl
    rw [incarnations, mints_snoc, hm, Option.toList_some, List.map_append]
    exact h.birth hO hwritten em hfresh he ((Nat.zero_le _).trans_lt (hnew _ hsaves)) hsaves
  · have hm : mint (machine.event s.store op) = none := by
      refine Option.eq_none_iff_forall_not_mem.mpr fun n hn => hbirth ?_
      obtain ⟨-, hnone, videoId, mediaTime, trim, hop⟩ := mint_eq_some.mp hn
      exact ⟨videoId, mediaTime, trim, hop, hnone⟩
    rw [hsame hm]
    have hs := event_cases s.store op
    rw [Machine.event_post] at hs
    generalize (machine.event s.store op).out = o at hs
    generalize (machine.step s.store op).1 = room at hs hnew ⊢
    cases hs with
    | control req trim tl new hl hr hf hctl =>
      have hsaves : (Lua.committed new (textOf req.cmdId) trim
          (Lua.record (RedisRoomStateStore.controlArgs req) tl s.store)).saves = s.store.saves ++ [new] := by simp
      exact h.restamp hO em hl (by rw [hctl, controlled_storeEpoch]) (by rw [hctl, controlled_seq]) (hnew new hsaves) hsaves
    | snapshot trim tl new hl hp window hswept =>
      exact h.restamp hO em hl (by rw [hswept]; rfl) (by rw [hswept]; rfl) (hnew new rfl) rfl
    | birth videoId mediaTime trim new hnone hborn => exact absurd ⟨videoId, mediaTime, trim, rfl, hnone⟩ hbirth
    | _ => exact ⟨t, .refl, h.keep em rfl⟩

/-! ## Runs -/

/-- What was committed stays. -/
theorem saves_append (ops more : List Op) : (machine.run ops).saves <+: (machine.run (ops ++ more)).saves := by
  induction more using List.reverseRecOn with
  | nil => rw [List.append_nil]
  | append_singleton more op ih =>
    rw [← List.append_assoc, Machine.run_snoc]
    exact ih.trans (step_cases _ op).saves_grow

/-- **The plane implements its specification.** Every run of the store and its clients, in which no two incarnations are
created at one instant, is a behaviour of the specification under the ordered rule, with bounds that allow for what was
created and written: the states of the run stand for states of the behaviour, in order. -/
theorem implements_timeline {k : SyncTimeline.Constants} (hk : k.ClientRule = .ordered) (as : List (FanoutOp Op C))
    (hmint : (mints (machine.trace (storeOps as))).Nodup)
    (he : (mints (machine.trace (storeOps as))).length ≤ k.MaxEpoch)
    (hq : ∀ tl ∈ commits (machine.run (storeOps as)), tl.seq < k.MaxSeq) :
    ∃ (σ : ℕ → SyncTimeline.State C) (f : ℕ → ℕ), Temporal.Behaviour (SyncTimeline.spec C k) σ ∧ StrictMono f ∧
      ∀ n, Implements (incarnations (machine.trace (storeOps (as.take n))))
        ((fanout machine Out.carried C).run (as.take n)) (σ (f n)) := by
  refine Temporal.exists_refined_list (p := SyncTimeline.spec C k)
    (R := fun bs => Implements (incarnations (machine.trace (storeOps bs))) ((fanout machine Out.carried C).run bs))
    as rfl implements_init fun bs a t hbs h => ?_
  obtain ⟨more, rfl⟩ := hbs
  rw [storeOps_append] at hmint he hq
  have hmints : mints (machine.trace (storeOps (bs ++ [a]))) <+:
      mints (machine.trace (storeOps (bs ++ [a]) ++ storeOps more)) := by
    rw [Machine.trace_append, mints, mints, List.filterMap_append]
    exact List.prefix_append _ _
  have hcommits : ∀ tl ∈ commits (machine.run (storeOps (bs ++ [a]))), tl.seq < k.MaxSeq := fun tl htl =>
    hq tl (((saves_append _ _).map TlHash.toTimeline).subset htl)
  have hshort := hmints.length_le.trans he
  have hnodup := hmint.sublist hmints.sublist
  obtain ⟨hroom, hemitted⟩ := fanout_store machine Out.carried bs
  rw [Machine.run_snoc]
  rw [storeOps_append] at hnodup hshort hcommits ⊢
  cases a with
  | store op =>
    rw [storeOps_store] at hnodup hshort hcommits ⊢
    rw [Machine.trace_snoc, ← hroom] at hnodup hshort ⊢
    rw [Machine.run_snoc, ← hroom] at hcommits
    have hO := ordered (storeOps bs) (nodup_mints_of_snoc _ _ hnodup)
    have hwritten := minted_committed (storeOps bs)
    rw [← hroom] at hO hwritten
    exact h.operate _ hO hwritten hnodup hshort hcommits
  | deliver c tl =>
    rw [storeOps_deliver, List.append_nil] at hnodup ⊢
    have hO := ordered (storeOps bs) hnodup
    rw [← hroom] at hO
    refine h.deliver hk hO (fun x hx => ?_) c tl
    rw [hemitted] at hx
    exact hO.honest x hx

/-- A room that is created, cleared and created again, and a client that is told of the old incarnation after the new. -/
def reinit : List (FanoutOp Op Bool) :=
  [.store (.init (some "v") 0 0), .store (.tick 5), .store .clear, .store (.tick 5), .store (.init none 3 0),
   .deliver true (Lua.born "" 3 10).toTimeline, .deliver true (Lua.born "v" 0 0).toTimeline]

theorem implements_timeline_reinit : ∃ (σ : ℕ → SyncTimeline.State Bool) (f : ℕ → ℕ),
    Temporal.Behaviour (SyncTimeline.spec Bool SyncTimeline.shipped) σ ∧ (σ (f 7)).applied true = ⟨2, 1⟩ := by
  obtain ⟨σ, f, hσ, -, h⟩ := implements_timeline (k := SyncTimeline.shipped) rfl reinit (by decide) (by decide) (by decide)
  exact ⟨σ, f, hσ, ((h 7).clients.holds true).trans (by decide)⟩

end Plane
end WatchParty
