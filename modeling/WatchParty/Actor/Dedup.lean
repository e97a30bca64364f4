import WatchParty.Lib.Remembered
import WatchParty.Actor.Plane

/-!
# Commands on the actor plane

`actor_commit.lua` looks a command up and records it only when it finds a timeline. As long as every commit of a
command finds one, the command commits at most once while its dedup record would live, over any handoff; a commit that
finds none is neither deduplicated nor recorded, and the next delivery commits again.

- `remembers`: the record of a command remembers its commits;
- `at_most_once_of_present`: the whole;
- `redelivered_after_expiry`: a timeline that expires between the read and the commit.
-/

namespace WatchParty
namespace ActorPlane

/-- The instants at which a run committed command `c`, oldest first. -/
def commitTimes (c : String) (tr : List Event) : List ℕ :=
  tr.filterMap fun e => if committedCmd e.act e.out = some c then some e.pre.now else none

theorem commitTimes_snoc (c : String) (tr : List Event) (e : Event) :
    commitTimes c (tr ++ [e]) =
      commitTimes c tr ++ (if committedCmd e.act e.out = some c then [e.pre.now] else []) := by
  by_cases h : committedCmd e.act e.out = some c <;> simp [commitTimes, h]

/-- Every commit for command `c` that executes under the caller's lease finds a timeline. -/
def CommitsFindTimeline (c : String) (tr : List Event) : Prop :=
  ∀ e ∈ tr, e.act.cmdId = some c → e.pre.leaseNow = e.act.caller → e.pre.loadTl ≠ none

/-- The dedup record of `c` remembers its commits. -/
def Remembers (c : String) (tr : List Event) (σ : Room) : Prop :=
  Remembered CMD_DEDUP_TTL_MS ((commitTimes c tr).map fun t => ((), t)) (fun _ => σ.cmd c) σ.now

/-- A command that neither commits `c` nor touches its record. -/
theorem Remembers.keep {c : String} {tr : List Event} {σ σ' : Room} (hI : Remembers c tr σ) (e : Event)
    (he : committedCmd e.act e.out ≠ some c) (hc : σ'.cmd c = σ.cmd c) (hnow : σ.now ≤ σ'.now) :
    Remembers c (tr ++ [e]) σ' := by
  unfold Remembers
  rw [commitTimes_snoc, if_neg he, List.append_nil, hc]
  exact hI.wait hnow

/-- The record of a commit is the record of its own command. -/
theorem actorRecord_cmd (a : Lua.ActorCommitArgs) (cur : Option TlHash) (σ : Room) (c : String) :
    (Lua.actorRecord a cur σ).cmd c =
      if a.cmdId ≠ "" ∧ cur.isSome ∧ c = a.cmdId then
        Expiring.put σ.now a.dedupTtlMs (Lua.nextSeq a.fence cur)
      else σ.cmd c := by
  unfold Lua.actorRecord
  by_cases h : a.cmdId ≠ "" ∧ cur.isSome
  · rw [if_pos h]
    by_cases hc : c = a.cmdId
    · rw [if_pos ⟨h.1, h.2, hc⟩, hc]
      exact Function.update_self _ _ _
    · rw [if_neg fun h' => hc h'.2.2]
      exact Function.update_of_ne hc _ _
  · rw [if_neg h, if_neg fun h' => h ⟨h'.1, h'.2.1⟩]

/-- **One command keeps the memory of `c`.** -/
theorem Remembers.step {c : String} {tr : List Event} {e : Event} (hs : Step e.pre e.act e.out e.post)
    (hC : CommitsFindTimeline c (tr ++ [e])) (hI : Remembers c tr e.pre) : Remembers c (tr ++ [e]) e.post := by
  have hfind : e.act.cmdId = some c → e.pre.leaseNow = e.act.caller → e.pre.loadTl ≠ none :=
    hC e (List.mem_append_right _ (List.mem_singleton_self _))
  obtain ⟨pre, act, out, post⟩ := e
  simp only at hs hI hfind ⊢
  cases hs with
  | commit i fence next cmdId forVideoId trim new hh hok hnew =>
    have hcmd : committedCmd (.commit i fence next cmdId forVideoId trim) (.answer (some ⟨new.toTimeline, none⟩)) =
        if textOf cmdId ≠ "" then some (textOf cmdId) else none := rfl
    by_cases hc : textOf cmdId ≠ "" ∧ textOf cmdId = c
    · obtain ⟨hne, rfl⟩ := hc
      obtain ⟨w, hw⟩ := Option.ne_none_iff_exists'.mp (hfind (if_pos hne) hh)
      have hnone : (pre.cmd (textOf cmdId)).get pre.now = none := by
        by_contra hsome
        exact (hok w hw).1 ⟨hne, Option.isSome_iff_ne_none.mpr hsome⟩
      have hrec := Remembered.record (k := ()) hI hnone (Lua.nextSeq fence (some w))
      unfold Remembers
      rw [commitTimes_snoc, hcmd, if_pos hne, if_pos rfl, List.map_append]
      have hkeys : (fun _ : Unit => (Lua.stored new (textOf cmdId) trim ActorRoomStateStore.KEY_TTL_MS
          (Lua.actorRecord (ActorRoomStateStore.commitArgs i fence next cmdId forVideoId) pre.loadTl pre)).cmd
            (textOf cmdId)) =
          Function.update (fun _ : Unit => pre.cmd (textOf cmdId)) ()
            (Expiring.put pre.now CMD_DEDUP_TTL_MS (Lua.nextSeq fence (some w))) := by
        funext u
        rw [Lua.stored_cmd, actorRecord_cmd, hw, if_pos ⟨hne, rfl, rfl⟩, Function.update_self]
        rfl
      rw [hkeys, Lua.stored_now, Lua.actorRecord_now]
      exact hrec
    · refine hI.keep _ ?_ ?_ ?_
      · simp only [hcmd]
        split
        · rename_i hne
          exact fun h => hc ⟨hne, Option.some.inj h⟩
        · exact fun h => by cases h
      · rw [Lua.stored_cmd, actorRecord_cmd]
        exact if_neg fun h => hc ⟨h.1, h.2.2.symm⟩
      · rw [Lua.stored_now, Lua.actorRecord_now]
  | keep op out hout hop hl => exact hI.keep _ (by simp [hout]) rfl le_rfl
  | tick d => exact hI.keep _ (by simp [committedCmd]) rfl (Nat.le_add_right _ _)
  | mint i h => exact hI.keep _ (by simp [committedCmd]) rfl le_rfl
  | renew i lease h ho => exact hI.keep _ (by simp [committedCmd]) rfl le_rfl
  | foreign i lease h ho => exact hI.keep _ (by simp [committedCmd]) rfl le_rfl
  | revoke owner fence n hh => exact hI.keep _ (by simp [committedCmd]) rfl le_rfl
  | birth i fence videoId mediaTime trim new hh h hnew => exact hI.keep _ (by simp [committedCmd]) rfl le_rfl
  | clear => exact hI.keep _ (by simp [committedCmd]) rfl le_rfl

/-- **The record of a command remembers its commits**, in every run in which its commits find a timeline. -/
theorem remembers (c : String) (ops : List Op) :
    CommitsFindTimeline c (machine.trace ops) → Remembers c (machine.trace ops) (machine.run ops) :=
  machine.invariant_under (C := CommitsFindTimeline c) (fun _ _ hC => Machine.forall_mem_of_snoc hC)
    (Remembered.start _ _) (fun _ _ _ hC hI => hI.step (event_cases _ _) hC) ops

/-- **At most once over handoffs.** In every run of the actor plane, two commits of a command whose commits
find a timeline are at least the record's time to live apart. -/
theorem at_most_once_of_present (ops : List Op) (c : String) (h : CommitsFindTimeline c (machine.trace ops)) :
    (commitTimes c (machine.trace ops)).Pairwise fun t t' => t + CMD_DEDUP_TTL_MS ≤ t' := by
  have happart := (remembers c ops h).apart
  rw [List.pairwise_map] at happart
  exact happart.imp fun hle => hle rfl

/-- A play from 1 s, as the owner's store commits it. -/
def playFrom1 : Draft := ⟨0, none, true, 1, 0, .play, some "u"⟩

/-- A command that an owner commits, and that is delivered again after the owner has crashed, its lease has expired
and another instance owns the room. -/
def handedOver : List Op :=
  [.claim "a", .init "a" 0 none 0 0, .commit "a" 0 playFrom1 (some "c") none 0, .tick 20000, .claim "b", .hgetall,
   .commit "b" 20000 playFrom1 (some "c") none 0]

theorem at_most_once_of_present_handoff :
    (commitTimes "c" (machine.trace handedOver)).Pairwise fun t t' => t + CMD_DEDUP_TTL_MS ≤ t' :=
  at_most_once_of_present handedOver "c" (by unfold CommitsFindTimeline; decide)

/-- The run: a new owner reads a timeline that has five seconds to live, its commit executes when they are over, and
the command is delivered again. -/
def expiredBetween : List Op :=
  [.claim "a", .init "a" 0 none 0 0, .tick 86395000, .claim "b", .hgetall, .tick 5000,
   .commit "b" 86395000 playFrom1 (some "c") none 0, .commit "b" 86395000 playFrom1 (some "c") none 0]

/-- **A commit that finds no timeline is not remembered**: the command commits twice. -/
theorem redelivered_after_expiry :
    ¬∀ ops c, (commitTimes c (machine.trace ops)).Pairwise fun t t' => t + CMD_DEDUP_TTL_MS ≤ t' := by
  intro h
  have htimes : commitTimes "c" (machine.trace expiredBetween) = [86400000, 86400000] := by decide
  have htwice := h expiredBetween "c"
  rw [htimes] at htwice
  simp [CMD_DEDUP_TTL_MS] at htwice

end ActorPlane
end WatchParty
