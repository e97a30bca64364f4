import WatchParty.Actor.Order
import WatchParty.Formal.Clients
import WatchParty.Formal.SyncActor
import WatchParty.Lib.Ranks

/-!
# The actor plane implements its specification

The scripts on the keys of a room and the clients of the room against `formal/SyncActor.tla`. A write under a lease is a
commit of its owner. The specification knows no lease that runs out: a claim that finds the lease expired or deleted
is, there, the crash of the owner, the claim and the revival of the owner; and since no instance claims what it owned
before it crashed, the room passes through another instance in between.

- `claims`: the leases of a run; `Claimed`: what they have to do with the lease that is held and with what is written;
- `specVersion`: the version of the specification that a timeline has, which counts leases and what was written under
  each;
- `Implements` relates the two; `Implements.claim`, `Implements.write` and `Implements.deliver` are the simulation,
  `implements_actor` the refinement, for runs in which no write restarts `seq`.
-/

namespace WatchParty
namespace ActorPlane

open SyncTimeline (Version fan NoTimeline Tracks Numbers)
open Ranks
open ActorRoomStateStore

/-- The timeline an answer carries. -/
def Out.carried : Out → Option Timeline
  | .created tl => tl
  | .answer a => a.map Answer.timeline
  | .timeline tl => tl
  | _ => none

/-! ## The leases of a run -/

/-- The leases that were minted, oldest first. -/
def claims (tr : List Event) : List Lease := tr.filterMap minted

@[simp] theorem claims_snoc (tr : List Event) (e : Event) : claims (tr ++ [e]) = claims tr ++ (minted e).toList := by
  cases h : minted e <;> simp [claims, h]

/-- The lease that is held was minted last, no lease is of the future, and what is written was written under one. -/
structure Claimed (tr : List Event) (σ : Room) : Prop where
  current : ∀ l, σ.leaseNow = some l → (claims tr).getLast? = some l
  past : ∀ l ∈ claims tr, l.epoch ≤ σ.now
  rising : (claims tr).Pairwise fun l l' => l.epoch ≤ l'.epoch
  under : ∀ w ∈ σ.saves, ∃ l ∈ claims tr, w.storeEpoch = l.epoch

theorem Claimed.step {tr : List Event} {e : Event} (hs : Step e.pre e.act e.out e.post) (hI : Claimed tr e.pre) :
    Claimed (tr ++ [e]) e.post := by
  have hunder : ∀ w ∈ e.post.saves, ∃ l ∈ claims tr, w.storeEpoch = l.epoch := by
    intro w hw
    rcases write_step hs with hsame | ⟨lease, new, -, hpre, -, -, he, hsaves, -⟩
    · exact hI.under w (hsame ▸ hw)
    · rw [hsaves] at hw
      rcases List.mem_append.mp hw with hw | hw
      · exact hI.under w hw
      · rw [List.mem_singleton.mp hw]
        exact ⟨lease, List.mem_of_getLast? (hI.current lease hpre), he⟩
  have hkept : minted e = none → (∀ l, e.post.leaseNow = some l → e.pre.leaseNow = some l) → e.pre.now ≤ e.post.now →
      Claimed (tr ++ [e]) e.post := by
    intro hm hl hnow
    have hc : claims (tr ++ [e]) = claims tr := by rw [claims_snoc, hm, Option.toList_none, List.append_nil]
    refine ⟨fun l h => ?_, fun l h => ?_, ?_, ?_⟩
    · rw [hc]
      exact hI.current l (hl l h)
    · rw [hc] at h
      exact (hI.past l h).trans (Nat.cast_le.mpr hnow)
    · rw [hc]
      exact hI.rising
    · rw [hc]
      exact hunder
  obtain ⟨hnow, ⟨i, hact, hnone, hheld, hsame⟩ | ⟨hkeep, hm⟩ | ⟨hnone, hm⟩⟩ := lease_step hs
  · have hm : minted e = some ⟨i, e.pre.now⟩ := by simp only [minted, hact, hnone]
    have hc : claims (tr ++ [e]) = claims tr ++ [⟨i, e.pre.now⟩] := by rw [claims_snoc, hm, Option.toList_some]
    refine ⟨fun l h => ?_, fun l h => ?_, ?_, fun w hw => ?_⟩
    · rw [hc, List.getLast?_concat, ← hheld, h]
    · rw [hsame]
      rw [hc] at h
      rcases List.mem_append.mp h with h | h
      · exact hI.past l h
      · rw [List.mem_singleton.mp h]
    · rw [hc]
      refine List.pairwise_append.mpr ⟨hI.rising, List.pairwise_singleton _ _, fun l h l' h' => ?_⟩
      rw [List.mem_singleton.mp h']
      exact hI.past l h
    · obtain ⟨l, h, he⟩ := hunder w hw
      exact ⟨l, hc ▸ List.mem_append_left _ h, he⟩
  · exact hkept hm (fun l h => hkeep ▸ h) hnow
  · exact hkept hm (fun l h => by rw [hnone] at h; cases h) hnow

theorem claimed (ops : List Op) : Claimed (machine.trace ops) (machine.run ops) :=
  machine.invariant
    { current := fun l h => by cases h
      past := fun l h => absurd h List.not_mem_nil
      rising := List.Pairwise.nil
      under := fun w h => absurd h List.not_mem_nil }
    (fun _ _ _ hI => hI.step (event_cases _ _)) ops

/-- What is answered is a version that is stored. -/
theorem carried_stored {σ : Room} (hN : Newest σ) (op : Op) {tl : Timeline} (h : (step σ op).2.carried = some tl) :
    ∃ w ∈ (step σ op).1.saves, w.toTimeline.version = tl.version := by
  have hloaded : ∀ w, σ.loadTl = some w → w ∈ σ.saves := fun w hw => List.mem_of_getLast? (hN w hw)
  cases op with
  | init i fence videoId mediaTime trim =>
    simp only [step] at h ⊢
    rcases Lua.actorInit_cases (initArgs i fence videoId mediaTime) trim σ with ⟨-, he⟩ | ⟨-, ⟨c, hc, he⟩ | ⟨-, he⟩⟩
    · rw [he] at h
      cases h
    · rw [he] at h ⊢
      obtain rfl := Option.some.inj h
      exact ⟨c, hloaded c hc, rfl⟩
    · rw [he] at h ⊢
      obtain rfl := Option.some.inj h
      exact ⟨_, by simp, rfl⟩
  | commit i fence next cmdId forVideoId trim =>
    simp only [step] at h ⊢
    rcases Lua.actorCommit_cases (commitArgs i fence next cmdId forVideoId) trim σ with
      ⟨-, he⟩ | ⟨-, ⟨c, hc, -, he⟩ | ⟨c, hc, -, -, he⟩ | ⟨-, he⟩⟩
    · rw [he] at h
      cases h
    · rw [he] at h ⊢
      obtain rfl := Option.some.inj h
      exact ⟨c, hloaded c hc, rfl⟩
    · rw [he] at h ⊢
      obtain rfl := Option.some.inj h
      exact ⟨c, hloaded c hc, rfl⟩
    · rw [he] at h ⊢
      obtain rfl := Option.some.inj h
      exact ⟨_, by simp, rfl⟩
  | hgetall =>
    obtain ⟨w, hw, rfl⟩ := Option.map_eq_some_iff.mp h
    exact ⟨w, hloaded w hw, rfl⟩
  | claim i => cases h
  | reclaim owner fence => cases h
  | clear => cases h
  | tick d => cases h

/-- A command takes back nothing that is stored. -/
theorem saves_step (σ : Room) (op : Op) : σ.saves <+: (machine.step σ op).1.saves := by
  rcases write_step (step_cases σ op) with hsame | ⟨lease, new, -, -, -, -, -, hsaves, -⟩
  · exact hsame ▸ List.prefix_rfl
  · exact hsaves ▸ List.prefix_append _ _

theorem saves_append (ops more : List Op) : (machine.run ops).saves <+: (machine.run (ops ++ more)).saves := by
  induction more using List.reverseRecOn with
  | nil => rw [List.append_nil]
  | append_singleton more op ih =>
    rw [← List.append_assoc, Machine.run_snoc]
    exact ih.trans (saves_step _ op)

/-- What instances were answered is a version that is stored. -/
theorem emitted_stored (ops : List Op) :
    ∀ tl ∈ (machine.trace ops).filterMap (fun e => e.out.carried),
      ∃ w ∈ (machine.run ops).saves, w.toTimeline.version = tl.version := by
  intro tl htl
  obtain ⟨e, he, hc⟩ := List.mem_filterMap.mp htl
  obtain ⟨bs, op, ⟨more, rfl⟩, rfl⟩ := machine.mem_trace he
  obtain ⟨w, hw, hv⟩ := carried_stored (newest bs) op hc
  refine ⟨w, (saves_append (bs ++ [op]) more).subset ?_, hv⟩
  rw [Machine.run_snoc]
  exact hw

/-! ## Versions of the specification -/

/-- Every write is newer than all before it. -/
def Rising (ws : List TlHash) : Prop := ws.Pairwise fun w new => w.toTimeline.version < new.toTimeline.version

/-- Where no write restarts `seq` writes rise. -/
theorem rising (ops : List Op) (h : NoRestart (machine.trace ops)) : Rising (machine.run ops).saves := by
  have htrans : IsTrans TlHash fun w new => w.toTimeline.version < new.toTimeline.version :=
    ⟨fun _ _ _ h1 h2 => h1.trans h2⟩
  exact List.isChain_iff_pairwise.mp (writes_chain ops h)

theorem Rising.lt_last {ws : List TlHash} {new : TlHash} (h : Rising (ws ++ [new])) :
    ∀ w ∈ ws, w.toTimeline.version < new.toTimeline.version := fun w hw =>
  (List.pairwise_append.mp h).2.2 w hw new (List.mem_singleton_self new)

theorem Rising.le_last {ws : List TlHash} (h : Rising ws) {last : TlHash} (hlast : ws.getLast? = some last) :
    ∀ w ∈ ws, w.toTimeline.version ≤ last.toTimeline.version := by
  obtain ⟨init, rfl⟩ := List.getLast?_eq_some_iff.mp hlast
  intro w hw
  rcases List.mem_append.mp hw with hw | hw
  · exact (h.lt_last w hw).le
  · rw [List.mem_singleton.mp hw]

/-- A stored hash has this version. -/
def Stored (ws : List TlHash) (tl : Timeline) : Prop := ∃ w ∈ ws, w.toTimeline.version = tl.version

theorem Stored.mk {ws : List TlHash} {w : TlHash} (h : w ∈ ws) : Stored ws w.toTimeline := ⟨w, h, rfl⟩

theorem version_eq_iff {a b : Timeline} : a.version = b.version ↔ a.storeEpoch = b.storeEpoch ∧ a.seq = b.seq := by
  rw [Timeline.version, Timeline.version, toLex_inj, Prod.mk.injEq]

/-- What was written under a fence. -/
def seqs (ws : List TlHash) (fence : ℚ) : List ℕ := (ws.filter fun w => w.storeEpoch = fence).map TlHash.seq

theorem mem_seqs {ws : List TlHash} {fence : ℚ} {n : ℕ} : n ∈ seqs ws fence ↔ ∃ w ∈ ws, w.storeEpoch = fence ∧ w.seq = n := by
  simp [seqs, and_assoc]

theorem seqs_snoc (ws : List TlHash) (new : TlHash) (fence : ℚ) :
    seqs (ws ++ [new]) fence = seqs ws fence ++ if new.storeEpoch = fence then [new.seq] else [] := by
  by_cases h : new.storeEpoch = fence <;> simp [seqs, h]

/-- The number of the lease, where the specification has one more between any two, and how often was written under it. -/
def specVersion (es : List ℚ) (ws : List TlHash) (tl : Timeline) : Version :=
  ⟨2 * rank es tl.storeEpoch - 1, rank (seqs ws tl.storeEpoch) tl.seq⟩

section Versions

variable {es : List ℚ} {ws : List TlHash} {tl : Timeline}

theorem Stored.mem_es (h : Stored ws tl) (hes : ∀ w ∈ ws, w.storeEpoch ∈ es) : tl.storeEpoch ∈ es := by
  obtain ⟨w, hw, hv⟩ := h
  exact (version_eq_iff.mp hv).1 ▸ hes w hw

theorem Stored.mem_seqs (h : Stored ws tl) : tl.seq ∈ seqs ws tl.storeEpoch := by
  obtain ⟨w, hw, hv⟩ := h
  exact ActorPlane.mem_seqs.mpr ⟨w, hw, version_eq_iff.mp hv⟩

/-- The two orders of versions agree on what is stored. -/
theorem numbers (hes : ∀ w ∈ ws, w.storeEpoch ∈ es) : Numbers (specVersion es ws) {tl | Stored ws tl} where
  pos tl htl := by
    have hpos := rank_pos (Stored.mem_es htl hes)
    simp only [specVersion]
    omega
  lt_iff a ha b hb := by
    have hae := Stored.mem_es ha hes
    have hbe := Stored.mem_es hb hes
    have hapos := rank_pos hae
    have hbpos := rank_pos hbe
    have hlt : 2 * rank es a.storeEpoch - 1 < 2 * rank es b.storeEpoch - 1 ↔ a.storeEpoch < b.storeEpoch := by
      rw [← rank_lt_iff hbe]
      omega
    have heq : 2 * rank es a.storeEpoch - 1 = 2 * rank es b.storeEpoch - 1 ↔ a.storeEpoch = b.storeEpoch := by
      rw [← rank_inj hae hbe]
      omega
    rw [SyncTimeline.Version.lt_iff, version_lt_iff]
    simp only [specVersion, hlt, heq]
    refine or_congr_right (and_congr_right fun he => ?_)
    rw [he]
    exact rank_lt_iff (Stored.mem_seqs hb)

/-- Newer writes leave the versions of older ones. -/
theorem specVersion_snoc {new : TlHash} (htl : Stored ws tl)
    (hlt : ∀ w ∈ ws, w.toTimeline.version < new.toTimeline.version) :
    specVersion es (ws ++ [new]) tl = specVersion es ws tl := by
  refine SyncTimeline.Version.ext rfl ?_
  simp only [specVersion, seqs_snoc]
  split
  · rename_i he
    obtain ⟨w, hw, hv⟩ := htl
    have hnew := hlt w hw
    rw [hv, version_lt_iff] at hnew
    exact rank_snoc ((hnew.resolve_left (ne_of_lt · he.symm)).2)
  · rw [List.append_nil]

/-- The newest write is the last under its fence. -/
theorem specVersion_new (es : List ℚ) {new : TlHash} (hlt : ∀ w ∈ ws, w.toTimeline.version < new.toTimeline.version) :
    specVersion es (ws ++ [new]) new.toTimeline =
      ⟨2 * rank es new.storeEpoch - 1, (seqs ws new.storeEpoch).length + 1⟩ := by
  refine SyncTimeline.Version.ext rfl ?_
  have hseqs : seqs (ws ++ [new]) new.storeEpoch = seqs ws new.storeEpoch ++ [new.seq] := by
    rw [seqs_snoc, if_pos rfl]
  have htop : ∀ n ∈ seqs (ws ++ [new]) new.storeEpoch, n ≤ new.seq := by
    intro n hn
    rw [hseqs] at hn
    rcases List.mem_append.mp hn with hn | hn
    · obtain ⟨w, hw, he, rfl⟩ := mem_seqs.mp hn
      exact ((version_lt_iff.mp (hlt w hw)).resolve_left fun h => h.ne he).2.le
    · exact (List.mem_singleton.mp hn).le
  exact (rank_top htop).trans (by rw [hseqs, List.length_append, List.length_singleton])

/-- The newest of what is stored. -/
theorem specVersion_last (es : List ℚ) (h : Rising ws) {last : TlHash} (hlast : ws.getLast? = some last) :
    specVersion es ws last.toTimeline = ⟨2 * rank es last.storeEpoch - 1, (seqs ws last.storeEpoch).length⟩ := by
  refine SyncTimeline.Version.ext rfl (rank_top fun n hn => ?_)
  obtain ⟨w, hw, he, rfl⟩ := mem_seqs.mp hn
  exact (Prod.Lex.le_iff.mp (h.le_last hlast w hw)).elim (fun h => absurd he h.ne) fun h => h.2

end Versions

/-! ## The simulation -/

variable {C : Type}

/-- A state of the specification stands for the keys of a room and its clients after these leases. -/
structure Implements (ls : List Lease) (s : Fanout Room C) (t : SyncActor.State String C) : Prop where
  committed : t.committed = (match s.store.saves.getLast? with
    | none => ⟨0, 0⟩
    | some w => specVersion (ls.map Lease.epoch) s.store.saves w.toTimeline)
  clients : Tracks (specVersion (ls.map Lease.epoch) s.store.saves) {tl | Stored s.store.saves tl} s.held t.network
    t.applied
  lease : t.lease = ⟨ls.getLast?.map Lease.owner, 2 * ls.length - 1⟩
  view : ∀ l, ls.getLast? = some l → t.ownerView l.owner = t.lease.epoch
  up : t.crashed = ∅
  admitted : t.admitted = s.store.saves.length
  pending : t.pending = ∅

variable {k : SyncActor.Constants} {ls : List Lease} {s : Fanout Room C} {t : SyncActor.State String C}

theorem Implements.keep (h : Implements ls s t) {room : Room} (em : List Timeline) (hsaves : room.saves = s.store.saves) :
    Implements ls ⟨room, em, s.held⟩ t := by
  refine ⟨?_, ?_, h.lease, h.view, h.up, ?_, h.pending⟩
  · rw [hsaves]
    exact h.committed
  · rw [hsaves]
    exact h.clients
  · rw [hsaves]
    exact h.admitted

/-- A lease that is newer than all before it. -/
theorem Implements.leased (h : Implements ls s t) {l : Lease} (hlt : ∀ e ∈ ls.map Lease.epoch, e < l.epoch)
    (hes : ∀ w ∈ s.store.saves, w.storeEpoch ∈ ls.map Lease.epoch) {room : Room} (em : List Timeline)
    (hsaves : room.saves = s.store.saves) {view : String → ℕ} (hview : view l.owner = 2 * (ls.length + 1) - 1) :
    Implements (ls ++ [l]) ⟨room, em, s.held⟩
      { t with lease := ⟨some l.owner, 2 * (ls.length + 1) - 1⟩, ownerView := view } := by
  have hsame : ∀ tl, Stored s.store.saves tl →
      specVersion ((ls ++ [l]).map Lease.epoch) s.store.saves tl =
        specVersion (ls.map Lease.epoch) s.store.saves tl := by
    intro tl htl
    rw [List.map_append, List.map_singleton, specVersion, specVersion, rank_snoc (hlt _ (htl.mem_es hes))]
  refine ⟨?_, ?_, ?_, fun x hx => ?_, h.up, ?_, h.pending⟩
  · rw [hsaves]
    refine h.committed.trans ?_
    cases hlast : s.store.saves.getLast? with
    | none => rfl
    | some w => exact (hsame _ (Stored.mk (List.mem_of_getLast? hlast))).symm
  · rw [hsaves]
    exact h.clients.congr hsame
  · rw [List.getLast?_concat, List.length_append, List.length_singleton]
    rfl
  · rw [List.getLast?_concat, Option.some.injEq] at hx
    subst hx
    exact hview
  · rw [hsaves]
    exact h.admitted

/-- Some instance is neither of two. -/
theorem exists_other (o i : String) : ∃ g : String, g ≠ o ∧ i ≠ g := by
  refine ⟨o ++ i ++ "'", fun h => ?_, fun h => ?_⟩
  · have hlen := congrArg String.length h
    simp only [String.length_append] at hlen
    have hone : "'".length = 1 := rfl
    omega
  · have hlen := congrArg String.length h
    simp only [String.length_append] at hlen
    have hone : "'".length = 1 := rfl
    omega

variable [DecidableEq C]

omit [DecidableEq C] in
/-- A write is a commit of the owner. -/
theorem Implements.version (h : Implements ls s t) {l : Lease} (hl : ls.getLast? = some l)
    (hpast : ∀ e ∈ ls.map Lease.epoch, e ≤ l.epoch) (hes : ∀ w ∈ s.store.saves, w.storeEpoch ∈ ls.map Lease.epoch)
    {new : TlHash} (hnew : new.storeEpoch = l.epoch) (hrise : Rising (s.store.saves ++ [new])) :
    t.nextVersion l.owner = specVersion (ls.map Lease.epoch) (s.store.saves ++ [new]) new.toTimeline := by
  have hview : t.ownerView l.owner = 2 * rank (ls.map Lease.epoch) new.storeEpoch - 1 := by
    rw [h.view l hl, h.lease, hnew, rank_top hpast, List.length_map]
  have hmem : new.storeEpoch ∈ ls.map Lease.epoch := hnew ▸ List.mem_map_of_mem (List.mem_of_getLast? hl)
  have hpos := rank_pos hmem
  rw [specVersion_new _ hrise.lt_last, SyncActor.State.nextVersion, hview]
  refine SyncTimeline.Version.ext rfl ?_
  cases hlast : s.store.saves.getLast? with
  | none =>
    have hcommitted : t.committed = ⟨0, 0⟩ := by rw [h.committed, hlast]
    have hzero : (0 : ℕ) ≠ 2 * rank (ls.map Lease.epoch) new.storeEpoch - 1 := by omega
    rw [hcommitted, List.getLast?_eq_none_iff.mp hlast, if_neg hzero]
    rfl
  | some w =>
    have hw := List.mem_of_getLast? hlast
    have hold : Rising s.store.saves := (List.pairwise_append.mp hrise).1
    have hwpos := rank_pos (hes w hw)
    have hcommitted : t.committed = specVersion (ls.map Lease.epoch) s.store.saves w.toTimeline := by
      rw [h.committed, hlast]
    rw [hcommitted, specVersion_last _ hold hlast]
    by_cases he : w.storeEpoch = new.storeEpoch
    · simp only [he, if_true]
    · -- nothing was written under this lease
      have hrank : rank (ls.map Lease.epoch) w.storeEpoch ≠ rank (ls.map Lease.epoch) new.storeEpoch := fun heq =>
        he ((rank_inj (hes w hw) hmem).mp heq)
      have hnone : seqs s.store.saves new.storeEpoch = [] := by
        refine List.eq_nil_iff_forall_not_mem.mpr fun n hn => ?_
        obtain ⟨x, hx, hxe, -⟩ := mem_seqs.mp hn
        have hle : x.storeEpoch ≤ w.storeEpoch :=
          (Prod.Lex.le_iff.mp (hold.le_last hlast x hx)).elim le_of_lt fun h => h.1.le
        have hlt : w.storeEpoch ≤ new.storeEpoch :=
          (version_lt_iff.mp (hrise.lt_last w hw)).elim le_of_lt fun h => h.1.le
        exact he (le_antisymm hlt (hxe ▸ hle))
      rw [hnone, if_neg (by simp only; omega)]
      rfl

/-- A write is a commit of the owner. -/
theorem Implements.write (h : Implements ls s t) {l : Lease} (hl : ls.getLast? = some l)
    (hpast : ∀ e ∈ ls.map Lease.epoch, e ≤ l.epoch) (hes : ∀ w ∈ s.store.saves, w.storeEpoch ∈ ls.map Lease.epoch)
    {new : TlHash} (hnew : new.storeEpoch = l.epoch) (hrise : Rising (s.store.saves ++ [new]))
    (hq : s.store.saves.length < k.MaxSeq) {room : Room} (em : List Timeline)
    (hsaves : room.saves = s.store.saves ++ [new]) :
    ∃ t', Relation.ReflTransGen (SyncActor.Next k) t t' ∧ Implements ls ⟨room, em, s.held⟩ t' := by
  have hversion := h.version hl hpast hes hnew hrise
  have howner : t.lease.owner = some l.owner := by rw [h.lease, hl]; rfl
  have hpos : 0 < ls.length := List.length_pos_of_mem (List.mem_of_getLast? hl)
  have hview : 0 < t.ownerView l.owner := by
    rw [h.view l hl, h.lease]
    simp only
    omega
  have hcommit : SyncActor.Next k t { t.committedBy l.owner with admitted := t.admitted + 1 } :=
    Or.inl ⟨l.owner, Or.inr (Or.inl ⟨h.up ▸ Set.notMem_empty _, hview, h.admitted ▸ hq,
      Or.inl ⟨⟨h.view l hl, howner⟩, rfl⟩⟩)⟩
  refine ⟨_, .single hcommit, ?_, ?_, h.lease, h.view, h.up, ?_, h.pending⟩
  · rw [hsaves, List.getLast?_concat]
    exact hversion
  · rw [hsaves]
    have hsame : ∀ tl, Stored s.store.saves tl → specVersion (ls.map Lease.epoch) (s.store.saves ++ [new]) tl =
        specVersion (ls.map Lease.epoch) s.store.saves tl := fun tl htl => specVersion_snoc htl hrise.lt_last
    refine (h.clients.congr hsame).fan ?_ fun tl htl => ?_
    · rintro tl ⟨w, hw, hv⟩
      exact ⟨w, List.mem_append_left _ hw, hv⟩
    · obtain ⟨w, hw, hv⟩ := htl
      rcases List.mem_append.mp hw with hw | hw
      · exact Or.inl ⟨w, hw, hv⟩
      · rw [List.mem_singleton.mp hw, version_eq_iff] at hv
        refine Or.inr ?_
        rw [hversion, specVersion, specVersion, hv.1, hv.2]
  · rw [hsaves, List.length_append, List.length_singleton]
    exact congrArg (· + 1) h.admitted

/-- An owner that is up crashes, another instance claims, and the owner comes back. -/
theorem handoff (hup : t.crashed = ∅) {o i : String} (ho : t.lease.owner = some o) (hne : i ≠ o)
    (he : t.lease.epoch < k.MaxEpoch) : Relation.ReflTransGen (SyncActor.Next k) t (t.claimed i) := by
  let down : SyncActor.State String C := { t with crashed := t.crashed ∪ {o} }
  have hcrash : SyncActor.Next k t down :=
    Or.inl ⟨o, Or.inr (Or.inr (Or.inl ⟨hup ▸ Set.notMem_empty o, rfl⟩))⟩
  have hclaim : SyncActor.Next k down (down.claimed i) := by
    refine Or.inl ⟨i, Or.inl ⟨?_, Or.inr ⟨o, Or.inr rfl, ho⟩, he, rfl⟩⟩
    rintro (hin | hin)
    · exact absurd hin (hup ▸ Set.notMem_empty i)
    · exact hne hin
  have hrevive : SyncActor.Next k (down.claimed i) (t.claimed i) := by
    refine Or.inl ⟨o, Or.inr (Or.inr (Or.inr (Or.inl ⟨Or.inr rfl, ?_⟩)))⟩
    have hback : (t.crashed ∪ {o}) \ {o} = t.crashed := by
      rw [hup, Set.empty_union, Set.sdiff_self]
    change t.claimed i = { t.claimed i with crashed := (t.crashed ∪ {o}) \ {o} }
    rw [hback]
    rfl
  exact ((Relation.ReflTransGen.single hcrash).tail hclaim).tail hrevive

/-- A claim that finds no lease is a claim of the specification, or two handoffs. -/
theorem Implements.claim (h : Implements ls s t) {l : Lease} (hlt : ∀ e ∈ ls.map Lease.epoch, e < l.epoch)
    (hes : ∀ w ∈ s.store.saves, w.storeEpoch ∈ ls.map Lease.epoch) (he : 2 * (ls.length + 1) ≤ k.MaxEpoch) {room : Room}
    (em : List Timeline) (hsaves : room.saves = s.store.saves) :
    ∃ t', Relation.ReflTransGen (SyncActor.Next k) t t' ∧ Implements (ls ++ [l]) ⟨room, em, s.held⟩ t' := by
  have hepoch : t.lease.epoch = 2 * ls.length - 1 := congrArg SyncActor.Lease.epoch h.lease
  cases hlast : ls.getLast? with
  | none =>
    have hnil : ls = [] := List.getLast?_eq_none_iff.mp hlast
    have hfree : t.lease.owner = none := by rw [h.lease, hlast]; rfl
    have hzero : t.lease.epoch + 1 = 2 * (ls.length + 1) - 1 := by
      rw [hepoch, hnil]
      rfl
    refine ⟨t.claimed l.owner, .single (Or.inl ⟨l.owner, Or.inl ⟨h.up ▸ Set.notMem_empty _, Or.inl hfree, by omega, rfl⟩⟩),
      ?_⟩
    rw [SyncActor.State.claimed, hzero]
    exact h.leased hlt hes em hsaves (Function.update_self ..)
  | some o =>
    have howner : t.lease.owner = some o.owner := by rw [h.lease, hlast]; rfl
    have hpos : 0 < ls.length := List.length_pos_of_mem (List.mem_of_getLast? hlast)
    obtain ⟨g, hgo, hig⟩ := exists_other o.owner l.owner
    have htwo : t.lease.epoch + 1 + 1 = 2 * (ls.length + 1) - 1 := by omega
    refine ⟨(t.claimed g).claimed l.owner, (handoff h.up howner hgo (by omega)).trans
      (handoff (t := t.claimed g) h.up rfl hig (show t.lease.epoch + 1 < k.MaxEpoch by omega)), ?_⟩
    rw [SyncActor.State.claimed, SyncActor.State.claimed]
    simp only [htwo]
    exact h.leased hlt hes em hsaves (Function.update_self ..)

/-- A delivery is one of the specification, where the client takes it, and no step where it does not. -/
theorem Implements.deliver (h : Implements ls s t) (hes : ∀ w ∈ s.store.saves, w.storeEpoch ∈ ls.map Lease.epoch)
    (hsent : ∀ tl ∈ s.emitted, Stored s.store.saves tl) (c : C) (tl : Timeline) :
    ∃ t', Relation.ReflTransGen (SyncActor.Next k) t t' ∧
      Implements ls ((fanout machine Out.carried C).step s (.deliver c tl)).1 t' := by
  simp only [fanout, fanoutStep]
  split
  · rename_i hin
    rcases h.clients.deliver (numbers hes) (hsent tl hin) c with heq | ⟨hlt, hflight, hclients⟩
    · rw [heq]
      exact ⟨t, .refl, h⟩
    · exact ⟨_, .single (Or.inr (Or.inl ⟨_, Or.inl ⟨hflight, Or.inl ⟨hlt, rfl⟩⟩⟩)), h.committed, hclients, h.lease, h.view,
        h.up, h.admitted, h.pending⟩
  · exact ⟨t, .refl, h⟩

omit [DecidableEq C] in
theorem implements_init : Implements [] (⟨Room.empty, [], fun _ => none⟩ : Fanout Room C) SyncActor.initial where
  committed := rfl
  clients := Tracks.init fun tl ⟨_, hw, _⟩ => List.not_mem_nil hw
  lease := rfl
  view l h := by cases h
  up := rfl
  admitted := rfl
  pending := rfl

/-- **One command** claims, writes, or is no step. -/
theorem Implements.operate {tr : List Event} {op : Op} (h : Implements (claims tr) s t) (em : List Timeline)
    (hC : Claimed tr s.store) (hmint : ((claims (tr ++ [machine.event s.store op])).map Lease.epoch).Nodup)
    (hrise : Rising (machine.step s.store op).1.saves)
    (he : 2 * (claims (tr ++ [machine.event s.store op])).length ≤ k.MaxEpoch)
    (hq : (machine.step s.store op).1.saves.length ≤ k.MaxSeq) :
    ∃ t', Relation.ReflTransGen (SyncActor.Next k) t t' ∧
      Implements (claims (tr ++ [machine.event s.store op])) ⟨(machine.step s.store op).1, em, s.held⟩ t' := by
  have hs := event_cases s.store op
  have hes : ∀ w ∈ s.store.saves, w.storeEpoch ∈ (claims tr).map Lease.epoch := by
    intro w hw
    obtain ⟨l, hl, heq⟩ := hC.under w hw
    exact List.mem_map.mpr ⟨l, hl, heq.symm⟩
  rw [claims_snoc] at hmint he ⊢
  cases hm : minted (machine.event s.store op) with
  | some l =>
    rw [hm, Option.toList_some] at hmint he
    rw [List.length_append, List.length_singleton] at he
    rw [Option.toList_some]
    obtain ⟨i, rfl, hnone, rfl⟩ : ∃ i, op = .claim i ∧ s.store.leaseNow = none ∧ l = ⟨i, s.store.now⟩ := by
      unfold minted at hm
      split at hm
      · rename_i i hact hnone
        exact ⟨i, hact, hnone, (Option.some.inj hm).symm⟩
      · cases hm
    have hsaves : (machine.step s.store (.claim i)).1.saves = s.store.saves := by
      rcases write_step hs with hsame | ⟨lease, new, hc, -⟩
      · exact hsame
      · cases hc
    refine h.claim (fun e hin => ?_) hes he em hsaves
    rw [List.map_append, List.map_singleton] at hmint
    obtain ⟨x, hx, rfl⟩ := List.mem_map.mp hin
    refine lt_of_le_of_ne (hC.past x hx) fun heq => ?_
    exact (List.nodup_append.mp hmint).2.2 _ hin _ (List.mem_singleton_self _) heq
  | none =>
    rw [Option.toList_none, List.append_nil]
    rcases write_step hs with hsame | ⟨l, new, -, hheld, -, -, hnew, hsaves, -⟩
    · exact ⟨t, .refl, h.keep em hsame⟩
    · change (machine.step s.store op).1.saves = s.store.saves ++ [new] at hsaves
      have hlast := hC.current l hheld
      have hpast : ∀ e ∈ (claims tr).map Lease.epoch, e ≤ l.epoch := by
        intro e hin
        obtain ⟨x, hx, rfl⟩ := List.mem_map.mp hin
        obtain ⟨init, hinit⟩ := List.getLast?_eq_some_iff.mp hlast
        have hrising := hC.rising
        rw [hinit] at hx hrising
        rcases List.mem_append.mp hx with hx | hx
        · exact (List.pairwise_append.mp hrising).2.2 x hx l (List.mem_singleton_self l)
        · rw [List.mem_singleton.mp hx]
      rw [hsaves] at hrise hq
      rw [List.length_append, List.length_singleton] at hq
      exact h.write hlast hpast hes hnew hrise hq em hsaves

/-! ## Runs -/

/-- **The actor plane implements its specification.** Every run of the keys of a room and its clients, in which no two
leases are minted at one instant and no write restarts `seq`, is a behaviour of the specification, with bounds that
allow for what was claimed and written: the states of the run stand for states of the behaviour, in order. -/
theorem implements_actor {k : SyncActor.Constants} (as : List (FanoutOp Op C))
    (hmint : ((claims (machine.trace (storeOps as))).map Lease.epoch).Nodup)
    (hrestart : NoRestart (machine.trace (storeOps as)))
    (he : 2 * (claims (machine.trace (storeOps as))).length ≤ k.MaxEpoch)
    (hq : (machine.run (storeOps as)).saves.length ≤ k.MaxSeq) :
    ∃ (σ : ℕ → SyncActor.State String C) (f : ℕ → ℕ), Temporal.Behaviour (SyncActor.spec String C k) σ ∧ StrictMono f ∧
      ∀ n, Implements (claims (machine.trace (storeOps (as.take n))))
        ((fanout machine Out.carried C).run (as.take n)) (σ (f n)) := by
  refine Temporal.exists_refined_list (p := SyncActor.spec String C k)
    (R := fun bs => Implements (claims (machine.trace (storeOps bs))) ((fanout machine Out.carried C).run bs))
    as rfl implements_init fun bs a t hbs h => ?_
  obtain ⟨more, rfl⟩ := hbs
  rw [storeOps_append] at hmint hrestart he hq
  have htrace := machine.trace_append (storeOps (bs ++ [a])) (storeOps more)
  have hclaims : claims (machine.trace (storeOps (bs ++ [a]))) <+:
      claims (machine.trace (storeOps (bs ++ [a]) ++ storeOps more)) := by
    rw [htrace, claims, claims, List.filterMap_append]
    exact List.prefix_append _ _
  have hnodup := hmint.sublist (hclaims.sublist.map Lease.epoch)
  have hfew : 2 * (claims (machine.trace (storeOps (bs ++ [a])))).length ≤ k.MaxEpoch := by
    have hlen := hclaims.length_le
    omega
  have hbefore : NoRestart (machine.trace (storeOps (bs ++ [a]))) := fun e he =>
    hrestart e (htrace ▸ List.mem_append_left _ he)
  have hshort := (saves_append (storeOps (bs ++ [a])) (storeOps more)).length_le.trans hq
  obtain ⟨hroom, hemitted⟩ := fanout_store machine Out.carried bs
  have hC := claimed (storeOps bs)
  rw [Machine.run_snoc]
  rw [storeOps_append] at hnodup hbefore hfew hshort ⊢
  cases a with
  | store op =>
    rw [storeOps_store] at hnodup hbefore hfew hshort ⊢
    have hrise := rising _ hbefore
    rw [Machine.run_snoc] at hrise hshort
    rw [Machine.trace_snoc] at hnodup hfew ⊢
    rw [← hroom] at hC hnodup hrise hfew hshort ⊢
    exact h.operate _ hC hnodup hrise hfew hshort
  | deliver c tl =>
    rw [storeOps_deliver, List.append_nil]
    rw [← hroom] at hC
    refine h.deliver (fun w hw => ?_) (fun x hx => ?_) c tl
    · obtain ⟨l, hl, heq⟩ := hC.under w hw
      exact List.mem_map.mpr ⟨l, hl, heq.symm⟩
    · rw [hemitted] at hx
      rw [hroom]
      exact emitted_stored (storeOps bs) x hx

/-- An owner whose lease runs out, a new owner that commits, and a client that is told of both writes, the newer first. -/
def handedOn : List (FanoutOp Op Bool) :=
  [.store (.claim "a"), .store (.init "a" 0 none 0 0), .store (.tick 10000), .store (.claim "b"),
   .store (.commit "b" 10000 ⟨10000, none, true, 3, 10000, .play, some "u"⟩ none none 0),
   .deliver true ⟨⟨10000, none, true, 3, 10000, .play, some "u"⟩, 1⟩, .deliver true ⟨⟨0, none, false, 0, 0, .join, none⟩, 0⟩]

theorem implements_actor_handedOn : ∃ (σ : ℕ → SyncActor.State String Bool) (f : ℕ → ℕ),
    Temporal.Behaviour (SyncActor.spec String Bool ⟨2, 4, 1⟩) σ ∧ (σ (f 7)).applied true = ⟨3, 1⟩ := by
  have hrestart : ∀ e ∈ machine.trace (storeOps handedOn), ∀ w ∈ e.pre.saves.getLast?, ¬Restarts w e := by
    unfold Restarts
    decide
  obtain ⟨σ, f, hσ, -, h⟩ := implements_actor (k := ⟨2, 4, 1⟩) handedOn (by decide)
    (fun e he w new hw _ => hrestart e he w hw) (by decide) (by decide)
  exact ⟨σ, f, hσ, ((h 7).clients.holds true).trans (by decide)⟩

end ActorPlane
end WatchParty
