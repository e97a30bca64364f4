import WatchParty.Shared.Order

/-!
# The repair sweep on the shared-script plane

Every instance sweeps on its own timer, and `apply_snapshot.lua` keeps the commits apart: the hash remembers the aligned
window of its last sweep, the other scripts carry the marker along, and a birth resets it.

- `machineAt` is the plane with sweeps of any period, `machineAt_period` the one that the instances run;
- `Change` says what one operation does to the marker, `Marked` what every run keeps of it;
- `sweep_dedup`: an incarnation is swept at most once in a window and whenever a window has no sweep yet, and a sweep
  moves nothing; `sweeps_repeat`: incarnations that share their epoch are swept once each.
-/

namespace WatchParty
namespace Plane

/-- One operation, where `ARGV` of the sweep is any period. -/
def stepAt (period : ℕ) (σ : Room) : Op → Room × Out
  | .applySnapshot trim =>
    let r := Lua.applySnapshot period trim σ
    (r.2, .timeline (r.1.map Answer.timeline))
  | op => step σ op

def machineAt (period : ℕ) : Machine Room Op Out := ⟨Room.empty, stepAt period⟩

theorem machineAt_period : machineAt SWEEP_DEDUP_PERIOD_MS = machine := by
  unfold machineAt machine
  congr 1
  funext σ op
  cases op <;> rfl

/-- The epoch and the window of the snapshot that an event committed. -/
def sweep (period : ℕ) (e : Event) : Option (ℚ × ℕ) :=
  match e.act, e.pre.loadTl with
  | .applySnapshot _, some tl =>
    if e.post.saves = e.pre.saves then none else some (tl.storeEpoch, e.pre.now / period)
  | _, _ => none

/-- The snapshots that a run committed, oldest first. -/
def sweeps (period : ℕ) (tr : List Event) : List (ℚ × ℕ) := tr.filterMap (sweep period)

/-- The windows in which the incarnation of the last birth was swept. -/
def windows (period : ℕ) (tr : List Event) : List ℕ :=
  tr.foldl (fun ws e => if (mint e).isSome then [] else ws ++ ((sweep period e).map Prod.snd).toList) []

@[simp] theorem sweeps_snoc (period : ℕ) (tr : List Event) (e : Event) :
    sweeps period (tr ++ [e]) = sweeps period tr ++ (sweep period e).toList := by
  cases h : sweep period e <;> simp [sweeps, h]

theorem windows_snoc (period : ℕ) (tr : List Event) (e : Event) :
    windows period (tr ++ [e]) =
      if (mint e).isSome then [] else windows period tr ++ ((sweep period e).map Prod.snd).toList := by
  simp [windows, List.foldl_append]

/-! ## One operation -/

/-- What an operation does to the marker: it is carried along with its hash, or the hash goes; it is moved to the
present window, which it did not name; or it is reset by a birth. -/
inductive Change (period : ℕ) (e : Event) : Prop
  | carried (hm : mint e = none) (hs : sweep period e = none) (hnow : e.pre.now ≤ e.post.now)
      (hl : ∀ new, e.post.loadTl = some new → ∃ tl, e.pre.loadTl = some tl ∧ new.storeEpoch = tl.storeEpoch ∧
        new.lastSweepWindow.getD (-1) = tl.lastSweepWindow.getD (-1))
  | swept (tl : TlHash) (h : e.pre.loadTl = some tl) (hp : tl.isPlaying = true)
      (hw : tl.lastSweepWindow ≠ some ((e.pre.now / period : ℕ) : ℤ)) (hm : mint e = none)
      (hs : sweep period e = some (tl.storeEpoch, e.pre.now / period)) (hnow : e.post.now = e.pre.now)
      (hl : e.post.loadTl = some (Lua.swept e.pre.now (e.pre.now / period : ℕ) tl))
  | born (videoId : String) (mediaTime : ℚ) (h : e.pre.loadTl = none) (hm : mint e = some e.pre.now)
      (hs : sweep period e = none) (hnow : e.post.now = e.pre.now)
      (hl : e.post.loadTl = some (Lua.born videoId mediaTime e.pre.now))

theorem sweep_eq_none {period : ℕ} {e : Event} (h : ∀ trim, e.act ≠ .applySnapshot trim) : sweep period e = none := by
  unfold sweep
  split
  · rename_i ha _
    exact absurd ha (h _)
  · rfl

/-- A sweep creates no incarnation, and its window is the present one. -/
theorem sweep_some {period : ℕ} {e : Event} {x : ℚ × ℕ} (h : sweep period e = some x) :
    mint e = none ∧ x.2 = e.pre.now / period := by
  obtain ⟨pre, act, out, post⟩ := e
  unfold sweep at h
  split at h
  · rename_i ha _
    dsimp only at ha
    subst ha
    split at h
    · cases h
    · cases h
      exact ⟨rfl, rfl⟩
  · cases h

theorem sweep_of_saves {period : ℕ} {e : Event} (h : e.post.saves = e.pre.saves) : sweep period e = none := by
  unfold sweep
  split
  · exact if_pos h
  · rfl

/-- An operation that leaves the keys of the room alone. -/
theorem Change.idle {period : ℕ} {e : Event} (hm : mint e = none) (h : e.post = e.pre) : Change period e :=
  .carried hm (sweep_of_saves (by rw [h])) (by rw [h]) fun new hl => ⟨new, h ▸ hl, rfl, rfl⟩

/-- A sweep that misses the room, finds it paused or finds the window swept does nothing. -/
theorem change_snapshot (period trim : ℕ) (σ : Room) :
    Change period ((machineAt period).event σ (.applySnapshot trim)) := by
  have hpost : ((machineAt period).event σ (.applySnapshot trim)).post = (Lua.applySnapshot period trim σ).2 := rfl
  rcases Lua.applySnapshot_cases period trim σ with ⟨h, he⟩ | ⟨tl, h, ⟨hp, he⟩ | ⟨hp, hw, he⟩ | ⟨hp, hw, he⟩⟩
  · exact .idle rfl (by rw [hpost, he]; rfl)
  · exact .idle rfl (by rw [hpost, he]; rfl)
  · exact .idle rfl (by rw [hpost, he]; rfl)
  · rw [← Int.natCast_div] at hw
    refine .swept tl h hp hw rfl ?_ (by rw [hpost, he]; rfl) (by rw [hpost, he]; simp)
    unfold sweep
    simp only [Machine.event_act, Machine.event_pre, h, hpost, he, Lua.committed_saves]
    rw [if_neg (by simp)]

theorem controlled_lastSweepWindow (a : Lua.ControlArgs) (now : ℕ) (tl : TlHash) :
    (Lua.controlled a now tl).lastSweepWindow = some (tl.lastSweepWindow.getD (-1)) := by
  unfold Lua.controlled
  cases a.intent <;> rfl

/-- The operations that are no sweep carry the marker along, drop it with its hash or reset it. -/
theorem change_of_step (period : ℕ) {e : Event} (h : Step e.pre e.act e.out e.post)
    (hact : ∀ trim, e.act ≠ .applySnapshot trim) : Change period e := by
  have hs : sweep period e = none := sweep_eq_none hact
  obtain ⟨pre, act, out, post⟩ := e
  dsimp only at h hact
  cases h with
  | read => exact .idle rfl rfl
  | missing => exact .idle rfl rfl
  | duplicate => exact .idle rfl rfl
  | fenced => exact .idle rfl rfl
  | control req trim tl new hl hr hf hnew =>
    refine .carried rfl hs (by simp) fun new' hl' => ?_
    rw [Lua.committed_loadTl] at hl'
    cases hl'
    refine ⟨tl, hl, by rw [hnew, controlled_storeEpoch], ?_⟩
    rw [hnew, controlled_lastSweepWindow, Option.getD_some]
  | idle trim => exact absurd rfl (hact trim)
  | snapshot trim => exact absurd rfl (hact trim)
  | found videoId mediaTime trim tl hl => exact .idle (mint_eq_none (by simp [hl])) rfl
  | birth videoId mediaTime trim new hl hnew =>
    subst hnew
    refine .born (textOf videoId) mediaTime hl ?_ hs (by simp) (by simp)
    simp only [mint, hl]
  | clear => exact .carried rfl hs le_rfl fun new hl => absurd hl (Option.some_ne_none new).symm
  | tick d =>
    refine .carried rfl hs (Nat.le_add_right _ _) fun new hl => ⟨new, ?_, rfl, rfl⟩
    exact Expiring.get_of_le hl (Nat.le_add_right _ _)

/-- Every operation changes the marker in one of these ways. -/
theorem change (period : ℕ) (σ : Room) (op : Op) : Change period ((machineAt period).event σ op) := by
  cases op with
  | applySnapshot trim => exact change_snapshot period trim σ
  | _ => exact change_of_step period (event_cases σ _) nofun

/-! ## Runs -/

/-- The marker of a hash whose incarnation was swept in these windows. -/
def mark (ws : List ℕ) : ℤ := (ws.getLast?.map fun w => (w : ℤ)).getD (-1)

/-- What every run keeps: the incarnation was swept in increasing windows, all of them past, and the stored hash
remembers the last. -/
structure Marked (period : ℕ) (tr : List Event) (σ : Room) : Prop where
  increasing : (windows period tr).Pairwise (· < ·)
  past : ∀ w ∈ windows period tr, w ≤ σ.now / period
  marker : ∀ tl, σ.loadTl = some tl → tl.lastSweepWindow.getD (-1) = mark (windows period tr)
  swept : ∀ tl, σ.loadTl = some tl → ∀ w ∈ windows period tr, (tl.storeEpoch, w) ∈ sweeps period tr

/-- Where the marker does not name the present window, the incarnation was not swept in it. -/
theorem Marked.lt {period : ℕ} {tr : List Event} {σ : Room} (hI : Marked period tr σ) {tl : TlHash}
    (h : σ.loadTl = some tl) (hw : tl.lastSweepWindow ≠ some ((σ.now / period : ℕ) : ℤ)) :
    ∀ w ∈ windows period tr, w < σ.now / period := by
  intro w hmem
  have hinc := hI.increasing
  have hpast := hI.past
  have hmark := hI.marker tl h
  generalize windows period tr = ws at hmem hinc hpast hmark
  obtain ⟨init, last, rfl⟩ : ∃ init last, ws = init ++ [last] :=
    (List.eq_nil_or_concat' ws).resolve_left (List.ne_nil_of_mem hmem)
  have hlast : last < σ.now / period := by
    refine lt_of_le_of_ne (hpast last (by simp)) fun he => hw ?_
    rw [mark, List.getLast?_concat, he] at hmark
    cases hl : tl.lastSweepWindow with
    | none =>
      rw [hl] at hmark
      exact absurd hmark (by simp; omega)
    | some m =>
      rw [hl] at hmark
      exact congrArg some hmark
  rcases List.mem_append.mp hmem with hi | hi
  · exact ((List.pairwise_append.mp hinc).2.2 w hi last (by simp)).trans hlast
  · rw [List.mem_singleton.mp hi]
    exact hlast

/-- A window that the marker names is one of the incarnation's. -/
theorem Marked.mem {period : ℕ} {tr : List Event} {σ : Room} (hI : Marked period tr σ) {tl : TlHash}
    (h : σ.loadTl = some tl) {w : ℕ} (hw : tl.lastSweepWindow = some (w : ℤ)) : w ∈ windows period tr := by
  have hmark := hI.marker tl h
  rw [hw, Option.getD_some, mark] at hmark
  cases hl : (windows period tr).getLast? with
  | none =>
    rw [hl] at hmark
    exact absurd hmark (by simp)
  | some last =>
    rw [hl] at hmark
    rw [Int.natCast_inj.mp hmark]
    exact List.mem_of_getLast? hl

theorem marked_init (period : ℕ) : Marked period [] Room.empty where
  increasing := List.Pairwise.nil
  past := nofun
  marker := nofun
  swept := nofun

/-- **One operation keeps the marker right.** -/
theorem Marked.step {period : ℕ} {tr : List Event} {e : Event} (hI : Marked period tr e.pre) (h : Change period e) :
    Marked period (tr ++ [e]) e.post := by
  cases h with
  | carried hm hs hnow hl =>
    have hw : windows period (tr ++ [e]) = windows period tr := by
      rw [windows_snoc, hm, hs]
      simp
    have hsw : sweeps period (tr ++ [e]) = sweeps period tr := by
      rw [sweeps_snoc, hs]
      simp
    refine ⟨hw ▸ hI.increasing, fun w hmem => ?_, fun new hnew => ?_, fun new hnew w hmem => ?_⟩
    · exact (hI.past w (hw ▸ hmem)).trans (Nat.div_le_div_right hnow)
    · obtain ⟨tl, htl, -, hmark⟩ := hl new hnew
      rw [hmark, hw]
      exact hI.marker tl htl
    · obtain ⟨tl, htl, hep, -⟩ := hl new hnew
      rw [hep, hsw]
      exact hI.swept tl htl w (hw ▸ hmem)
  | swept tl htl hp hne hm hs hnow hl =>
    have hlt := hI.lt htl hne
    have hw : windows period (tr ++ [e]) = windows period tr ++ [e.pre.now / period] := by
      rw [windows_snoc, hm, hs]
      rfl
    have hsw : sweeps period (tr ++ [e]) = sweeps period tr ++ [(tl.storeEpoch, e.pre.now / period)] := by
      rw [sweeps_snoc, hs]
      rfl
    refine ⟨?_, fun w hmem => ?_, fun new hnew => ?_, fun new hnew w hmem => ?_⟩
    · rw [hw]
      refine List.pairwise_append.mpr ⟨hI.increasing, List.pairwise_singleton _ _, fun a ha b hb => ?_⟩
      rw [List.mem_singleton.mp hb]
      exact hlt a ha
    · rw [hnow]
      rw [hw, List.mem_append, List.mem_singleton] at hmem
      rcases hmem with hmem | rfl
      · exact hI.past w hmem
      · exact le_rfl
    · rw [hl] at hnew
      cases hnew
      rw [hw, mark, List.getLast?_concat]
      rfl
    · rw [hl] at hnew
      cases hnew
      rw [hw, List.mem_append, List.mem_singleton] at hmem
      rw [hsw]
      rcases hmem with hmem | rfl
      · exact List.mem_append_left _ (hI.swept tl htl w hmem)
      · exact List.mem_append_right _ (List.mem_singleton_self _)
  | born videoId mediaTime hnone hm hs hnow hl =>
    have hw : windows period (tr ++ [e]) = [] := by
      rw [windows_snoc, hm]
      rfl
    refine ⟨hw ▸ List.Pairwise.nil, fun w hmem => ?_, fun new hnew => ?_, fun new hnew w hmem => ?_⟩
    · exact absurd (hw ▸ hmem) List.not_mem_nil
    · rw [hl] at hnew
      cases hnew
      rw [hw]
      rfl
    · exact absurd (hw ▸ hmem) List.not_mem_nil

/-- **The marker is right after every run.** -/
theorem marked (period : ℕ) (ops : List Op) :
    Marked period ((machineAt period).trace ops) ((machineAt period).run ops) :=
  (machineAt period).invariant (marked_init period) (fun _ _ _ hI => hI.step (change period _ _)) ops

/-- Without a birth the windows only get more. -/
theorem windows_grow (period : ℕ) (tr more : List Event) (h : ∀ e ∈ more, mint e = none) :
    windows period tr <+: windows period (tr ++ more) := by
  induction more using List.reverseRecOn with
  | nil => simp
  | append_singleton more e ih =>
    rw [← List.append_assoc, windows_snoc, h e (by simp)]
    exact (ih fun e' he' => h e' (List.mem_append_left _ he')).trans (List.prefix_append _ _)

/-- Between two sweeps of one window lies a birth. -/
theorem birth_between (period : ℕ) (ops : List Op) {before between after : List Event} {e e' : Event} {x y : ℚ × ℕ}
    (htr : (machineAt period).trace ops = before ++ e :: (between ++ e' :: after)) (he : sweep period e = some x)
    (he' : sweep period e' = some y) (hw : x.2 = y.2) : ∃ b ∈ between, mint b ≠ none := by
  by_contra hno
  push Not at hno
  have htr' : (machineAt period).trace ops = (before ++ [e] ++ between) ++ e' :: after := by
    rw [htr]
    simp
  obtain ⟨ops', op, -, -, hbefore, hevent, -⟩ := (machineAt period).trace_split htr'
  have hI := marked period ops'
  rw [← hbefore] at hI
  have hx : windows period (before ++ [e]) = windows period before ++ [x.2] := by
    rw [windows_snoc, (sweep_some he).1, he]
    rfl
  have hmem : x.2 ∈ windows period (before ++ [e] ++ between) :=
    (windows_grow period _ between hno).subset (by rw [hx]; simp)
  have hy := (sweep_some he').2
  rw [hevent] at he' hy
  cases change period ((machineAt period).run ops') op with
  | carried hm hs => exact absurd (hs.symm.trans he') (Option.some_ne_none y).symm
  | swept tl htl hp hne => exact absurd (hI.lt htl hne _ hmem) (by rw [hw, hy]; exact lt_irrefl _)
  | born videoId mediaTime hnone hm hs => exact absurd (hs.symm.trans he') (Option.some_ne_none y).symm

/-- What the runs with distinct mints keep besides: an epoch names an incarnation. -/
structure Named (period : ℕ) (tr : List Event) (σ : Room) : Prop where
  nodup : (sweeps period tr).Nodup
  current : ∀ tl, σ.loadTl = some tl → ∀ w, (tl.storeEpoch, w) ∈ sweeps period tr → w ∈ windows period tr
  minted : ∀ x ∈ sweeps period tr, ∃ n ∈ mints tr, x.1 = n
  live : ∀ tl, σ.loadTl = some tl → ∃ n ∈ mints tr, tl.storeEpoch = n

theorem named_init (period : ℕ) : Named period [] Room.empty where
  nodup := List.nodup_nil
  current := nofun
  minted := nofun
  live := nofun

theorem Named.step {period : ℕ} {tr : List Event} {e : Event} (hM : Marked period tr e.pre) (hI : Named period tr e.pre)
    (h : Change period e) (hmint : (mints (tr ++ [e])).Nodup) : Named period (tr ++ [e]) e.post := by
  have hgrow : ∀ n ∈ mints tr, n ∈ mints (tr ++ [e]) := fun n hn => by
    rw [mints_snoc]
    exact List.mem_append_left _ hn
  cases h with
  | carried hm hs hnow hl =>
    have hw : windows period (tr ++ [e]) = windows period tr := by
      rw [windows_snoc, hm, hs]
      simp
    have hsw : sweeps period (tr ++ [e]) = sweeps period tr := by
      rw [sweeps_snoc, hs]
      simp
    refine ⟨hsw ▸ hI.nodup, fun new hnew w hmem => ?_, fun x hx => ?_, fun new hnew => ?_⟩
    · obtain ⟨tl, htl, hep, -⟩ := hl new hnew
      rw [hep, hsw] at hmem
      exact hw ▸ hI.current tl htl w hmem
    · obtain ⟨n, hn, he⟩ := hI.minted x (hsw ▸ hx)
      exact ⟨n, hgrow n hn, he⟩
    · obtain ⟨tl, htl, hep, -⟩ := hl new hnew
      obtain ⟨n, hn, he⟩ := hI.live tl htl
      exact ⟨n, hgrow n hn, hep.trans he⟩
  | swept tl htl hp hne hm hs hnow hl =>
    have hlt := hM.lt htl hne
    have hw : windows period (tr ++ [e]) = windows period tr ++ [e.pre.now / period] := by
      rw [windows_snoc, hm, hs]
      rfl
    have hsw : sweeps period (tr ++ [e]) = sweeps period tr ++ [(tl.storeEpoch, e.pre.now / period)] := by
      rw [sweeps_snoc, hs]
      rfl
    have hfresh : (tl.storeEpoch, e.pre.now / period) ∉ sweeps period tr := fun hmem =>
      lt_irrefl _ (hlt _ (hI.current tl htl _ hmem))
    refine ⟨?_, fun new hnew w hmem => ?_, fun x hx => ?_, fun new hnew => ?_⟩
    · rw [hsw]
      exact List.nodup_append.mpr ⟨hI.nodup, List.nodup_singleton _, fun a ha b hb => by
        rw [List.mem_singleton.mp hb]
        exact fun hab => hfresh (hab ▸ ha)⟩
    · rw [hl] at hnew
      cases hnew
      rw [hsw, List.mem_append, List.mem_singleton] at hmem
      rw [hw]
      rcases hmem with hmem | hmem
      · exact List.mem_append_left _ (hI.current tl htl w hmem)
      · rw [(Prod.mk.inj hmem).2]
        exact List.mem_append_right _ (List.mem_singleton_self _)
    · rw [hsw, List.mem_append, List.mem_singleton] at hx
      rcases hx with hx | rfl
      · obtain ⟨n, hn, he⟩ := hI.minted x hx
        exact ⟨n, hgrow n hn, he⟩
      · obtain ⟨n, hn, he⟩ := hI.live tl htl
        exact ⟨n, hgrow n hn, he⟩
    · rw [hl] at hnew
      cases hnew
      obtain ⟨n, hn, he⟩ := hI.live tl htl
      exact ⟨n, hgrow n hn, he⟩
  | born videoId mediaTime hnone hm hs hnow hl =>
    have hsw : sweeps period (tr ++ [e]) = sweeps period tr := by
      rw [sweeps_snoc, hs]
      simp
    have hms : mints (tr ++ [e]) = mints tr ++ [e.pre.now] := by
      rw [mints_snoc, hm]
      rfl
    have hfresh : e.pre.now ∉ mints tr := by
      rw [hms] at hmint
      exact fun hin => (List.nodup_append.mp hmint).2.2 _ hin _ (List.mem_singleton_self _) rfl
    refine ⟨hsw ▸ hI.nodup, fun new hnew w hmem => ?_, fun x hx => ?_, fun new hnew => ?_⟩
    · rw [hl] at hnew
      cases hnew
      obtain ⟨n, hn, he⟩ := hI.minted _ (hsw ▸ hmem)
      exact absurd (Nat.cast_injective he ▸ hn) hfresh
    · obtain ⟨n, hn, he⟩ := hI.minted x (hsw ▸ hx)
      exact ⟨n, hgrow n hn, he⟩
    · rw [hl] at hnew
      cases hnew
      exact ⟨e.pre.now, by rw [hms]; simp, rfl⟩

theorem named (period : ℕ) (ops : List Op) (hmint : (mints ((machineAt period).trace ops)).Nodup) :
    Named period ((machineAt period).trace ops) ((machineAt period).run ops) := by
  have h := (machineAt period).invariant_under (C := fun tr => (mints tr).Nodup)
    (I := fun tr σ => Marked period tr σ ∧ Named period tr σ) nodup_mints_of_snoc ⟨marked_init period, named_init period⟩
    (fun tr σ op hc hI => ⟨hI.1.step (change period σ op), hI.2.step hI.1 (change period σ op) hc⟩) ops
  exact (h hmint).2

/-! ## The sweep -/

/-- A committed snapshot is the projection of the hash that it replaces. -/
theorem swept_projection {tl : TlHash} (hp : tl.isPlaying = true) (now : ℕ) (window : ℤ) (t : ℚ) :
    projectMediaTime (Lua.swept now window tl).toTimeline t = projectMediaTime tl.toTimeline t := by
  have hplay : tl.toTimeline.isPlaying = true := hp
  have hmedia : (Lua.swept now window tl).toTimeline.mediaTime = projectMediaTime tl.toTimeline now := by
    rw [projectMediaTime_playing hplay]
    rfl
  have hplay' : (Lua.swept now window tl).toTimeline.isPlaying = tl.toTimeline.isPlaying := rfl
  exact projectMediaTime_reanchor hplay' hmedia t

/-- A paused room is left alone. -/
theorem sweep_paused (period trim : ℕ) {σ : Room} {tl : TlHash} (h : σ.loadTl = some tl) (hp : tl.isPlaying = false) :
    (stepAt period σ (.applySnapshot trim)).1 = σ := by
  have hpost : (stepAt period σ (.applySnapshot trim)).1 = (Lua.applySnapshot period trim σ).2 := rfl
  rcases Lua.applySnapshot_cases period trim σ with ⟨-, he⟩ | ⟨tl', h', ⟨-, he⟩ | ⟨-, -, he⟩ | ⟨hp', -, -⟩⟩
  · rw [hpost, he]
  · rw [hpost, he]
  · rw [hpost, he]
  · cases h.symm.trans h'
    exact absurd (hp.symm.trans hp') Bool.false_ne_true

/-- A playing room is swept, unless the marker names the present window. -/
theorem sweep_playing (period trim : ℕ) {σ : Room} {tl : TlHash} (h : σ.loadTl = some tl) (hp : tl.isPlaying = true)
    (hw : tl.lastSweepWindow ≠ some ((σ.now / period : ℕ) : ℤ)) :
    (stepAt period σ (.applySnapshot trim)).1 =
      Lua.committed (Lua.swept σ.now (σ.now / period : ℕ) tl) "" trim σ := by
  have hpost : (stepAt period σ (.applySnapshot trim)).1 = (Lua.applySnapshot period trim σ).2 := rfl
  rw [Int.natCast_div] at hw ⊢
  rcases Lua.applySnapshot_cases period trim σ with ⟨hn, -⟩ | ⟨tl', h', ⟨hp', -⟩ | ⟨-, hw', -⟩ | ⟨-, -, he⟩⟩
  · exact absurd (hn.symm.trans h) (Option.some_ne_none tl).symm
  · cases h.symm.trans h'
    exact absurd (hp'.symm.trans hp) Bool.false_ne_true
  · cases h.symm.trans h'
    exact absurd hw' hw
  · cases h.symm.trans h'
    rw [hpost, he]

/-- Nothing else is swept. -/
theorem sweep_cases (period trim : ℕ) (σ : Room) :
    (stepAt period σ (.applySnapshot trim)).1 = σ ∨
      ∃ tl, σ.loadTl = some tl ∧ tl.isPlaying = true ∧
        (stepAt period σ (.applySnapshot trim)).1 =
          Lua.committed (Lua.swept σ.now (σ.now / period : ℕ) tl) "" trim σ := by
  have hpost : (stepAt period σ (.applySnapshot trim)).1 = (Lua.applySnapshot period trim σ).2 := rfl
  rcases Lua.applySnapshot_cases period trim σ with ⟨-, he⟩ | ⟨tl, h, ⟨-, he⟩ | ⟨-, -, he⟩ | ⟨hp, -, he⟩⟩
  · exact .inl (by rw [hpost, he])
  · exact .inl (by rw [hpost, he])
  · exact .inl (by rw [hpost, he])
  · exact .inr ⟨tl, h, hp, by rw [hpost, he, Int.natCast_div]⟩

/-- **The repair sweep.** In every run, with sweeps of any period: between two snapshots that were committed in one
window lies a birth, so with distinct mints no (epoch, window) is swept twice. A sweep leaves a paused room alone;
commits in a playing room whose epoch has no snapshot in the present window; and what it commits is stamped now and
projects to the media time of the hash that it replaces, at every instant. -/
theorem sweep_dedup (period : ℕ) (ops : List Op) :
    let m := machineAt period
    let σ := m.run ops
    (∀ before e between e' after x y, m.trace ops = before ++ e :: (between ++ e' :: after) →
      sweep period e = some x → sweep period e' = some y → x.2 = y.2 → ∃ b ∈ between, mint b ≠ none) ∧
    ((mints (m.trace ops)).Nodup → (sweeps period (m.trace ops)).Nodup) ∧
    (∀ trim tl, σ.loadTl = some tl → tl.isPlaying = false → (stepAt period σ (.applySnapshot trim)).1 = σ) ∧
    (∀ trim tl, σ.loadTl = some tl → tl.isPlaying = true →
      (tl.storeEpoch, σ.now / period) ∉ sweeps period (m.trace ops) →
        sweep period (m.event σ (.applySnapshot trim)) = some (tl.storeEpoch, σ.now / period)) ∧
    ∀ trim, (stepAt period σ (.applySnapshot trim)).1.saves ≠ σ.saves →
      ∃ tl new, σ.loadTl = some tl ∧ tl.isPlaying = true ∧
        (stepAt period σ (.applySnapshot trim)).1.loadTl = some new ∧
        (stepAt period σ (.applySnapshot trim)).1.saves = σ.saves ++ [new] ∧ new.isPlaying = true ∧
        new.seq = tl.seq + 1 ∧ new.storeEpoch = tl.storeEpoch ∧ new.stampedAt = σ.now ∧
        ∀ t, projectMediaTime new.toTimeline t = projectMediaTime tl.toTimeline t := by
  dsimp only
  refine ⟨fun before e between e' after x y htr he he' hw => birth_between period ops htr he he' hw,
    fun hmint => (named period ops hmint).nodup, ?_, ?_, ?_⟩
  · exact fun trim tl h hp => sweep_paused period trim h hp
  · intro trim tl h hp hfresh
    have hI := marked period ops
    have hw : tl.lastSweepWindow ≠ some ((((machineAt period).run ops).now / period : ℕ) : ℤ) := fun hw =>
      hfresh (hI.swept tl h _ (hI.mem h hw))
    have hpost := sweep_playing period trim h hp hw
    unfold sweep
    simp only [Machine.event_act, Machine.event_pre, h]
    refine if_neg ?_
    change ¬(stepAt period _ _).1.saves = _
    rw [hpost, Lua.committed_saves]
    simp
  · intro trim hsaves
    rcases sweep_cases period trim ((machineAt period).run ops) with hsame | ⟨tl, h, hp, hpost⟩
    · exact absurd (by rw [hsame]) hsaves
    · refine ⟨tl, Lua.swept ((machineAt period).run ops).now (((machineAt period).run ops).now / period : ℕ) tl, h, hp,
        ?_, ?_, hp, rfl, rfl, rfl, fun t => swept_projection hp _ _ t⟩
      · rw [hpost, Lua.committed_loadTl]
      · rw [hpost, Lua.committed_saves]

/-- Two incarnations of one millisecond share their epoch, and each is swept in its window. -/
theorem sweeps_repeat :
    ¬∀ ops, (sweeps SWEEP_DEDUP_PERIOD_MS ((machineAt SWEEP_DEDUP_PERIOD_MS).trace ops)).Nodup := by
  let play : Op := .applyControl ⟨.play, 0, "u", none, none, none, none⟩ 0
  have h : ¬(sweeps SWEEP_DEDUP_PERIOD_MS ((machineAt SWEEP_DEDUP_PERIOD_MS).trace
      [.init none 0 0, play, .applySnapshot 0, .clear, .init none 0 0, play, .applySnapshot 0])).Nodup := by
    decide +kernel
  exact fun hall => h (hall _)

end Plane
end WatchParty
