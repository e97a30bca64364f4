import WatchParty.Voice.Calls

/-!
# The voice roster and the calls

Three maps say who is on a call. A socket that joins replaces its entry in one of them, and is added to the two others.

- `currentCall` is the call of a socket by what it has done, `Matches` says that all maps of an instance tell the same;
- `Orderly` is the condition on a step;
- `roster_matches_iff` is the result: the maps match in every state of a run exactly when its steps are orderly;
  `roster_leaks` is a run in which a socket changes rooms.
-/

namespace WatchParty
namespace Voice

section Calls

variable {I : Type} [DecidableEq I]

/-- The call of each socket of an instance after a step: the room it joins last, unless it has left or disconnected
since. -/
def callAfter (i : I) (call : String → Option String) (e : Event I) : String → Option String :=
  match e.act with
  | .start j (.join id roomCode) => if j = i then Function.update call id (some roomCode) else call
  | .start j (.leave id) => if j = i then Function.update call id none else call
  | .start j (.disconnect id) => if j = i then Function.update call id none else call
  | _ => call

/-- The current call of each socket. -/
def currentCall (i : I) (tr : List (Event I)) : String → Option String := tr.foldl (callAfter i) fun _ => none

theorem currentCall_snoc (i : I) (tr : List (Event I)) (e : Event I) :
    currentCall i (tr ++ [e]) = callAfter i (currentCall i tr) e := by
  simp [currentCall]

/-- Has the socket disconnected? -/
def Disconnected (i : I) (id : String) (tr : List (Event I)) : Prop := ∃ e ∈ tr, e.act = .start i (.disconnect id)

omit [DecidableEq I] in
theorem disconnected_snoc {i : I} {id : String} {tr : List (Event I)} {e : Event I} :
    Disconnected i id (tr ++ [e]) ↔ Disconnected i id tr ∨ e.act = .start i (.disconnect id) := by
  simp [Disconnected, or_and_right, exists_or]

/-- **The roster matches the calls** of an instance: it lists a socket in a room where that is its current call, so in
one room at most; `list` names the users of these sockets; the three maps agree; and a socket that has disconnected is
in none of them. -/
structure Matches (identity : String → VoiceMember) (i : I) (tr : List (Event I)) (c : VoiceGateway) : Prop where
  calls : ∀ id room, (c.roster.byRoom.getIn room id).isSome ↔ currentCall i tr id = some room
  one : ∀ id room room', (c.roster.byRoom.getIn room id).isSome → (c.roster.byRoom.getIn room' id).isSome → room = room'
  named : ∀ room, ∀ m ∈ c.roster.list room, ∃ id, currentCall i tr id = some room ∧ identity id = m
  names : ∀ room id, currentCall i tr id = some room →
    (identity id).userId ∈ (c.roster.list room).map VoiceMember.userId
  rooms : ∀ id room, id ∈ c.sockets room ↔ c.joinedRoom id = some room
  roster : ∀ id room, (c.roster.byRoom.getIn room id).isSome ↔ c.joinedRoom id = some room
  gone : ∀ id, Disconnected i id tr →
    c.joinedRoom id = none ∧ ∀ room, id ∉ c.sockets room ∧ (c.roster.byRoom.getIn room id).isSome = false

/-- A socket joins when it has not disconnected and is in no call, or in the one it joins; and the code of the room that
it leaves is not empty. -/
def Orderly (tr : List (Event I)) (e : Event I) : Prop :=
  match e.act with
  | .start i (.join id roomCode) => ¬Disconnected i id tr ∧ ∀ room, currentCall i tr id = some room → room = roomCode
  | .start i (.leave id) => currentCall i tr id ≠ some ""
  | .start i (.disconnect id) => currentCall i tr id ≠ some ""
  | _ => True

end Calls

/-! ## The maps -/

/-- The sockets of a room are those that its set has. -/
theorem mem_sockets {id room : String} {c : VoiceGateway} :
    id ∈ c.sockets room ↔ (c.roomVoiceUsers.getIn room id).isSome := by
  unfold VoiceGateway.sockets OrderedMap.getIn
  rw [← OrderedMap.has_iff, OrderedMap.has]
  cases c.roomVoiceUsers.get room <;> simp

/-- Who is listed in a room is in it. -/
theorem mem_list {room : String} {r : VoiceRoster} {m : VoiceMember} (h : m ∈ r.list room) :
    ∃ id, r.byRoom.getIn room id = some m := by
  unfold VoiceRoster.list at h
  split at h
  · cases h
  · rename_i members hg
    obtain ⟨k, hk⟩ := OrderedMap.mem_values.mp h
    obtain ⟨hm, -⟩ := OrderedMap.mem_byKey (OrderedMap.get_eq_some.mp hk)
    obtain ⟨id, hid⟩ := OrderedMap.mem_values.mp hm
    exact ⟨id, OrderedMap.getIn_eq_some.mpr ⟨members, hg, hid⟩⟩

/-- The user of every socket in a room is listed in it. -/
theorem list_names {room id : String} {r : VoiceRoster} {m : VoiceMember} (h : r.byRoom.getIn room id = some m) :
    m.userId ∈ (r.list room).map VoiceMember.userId := by
  obtain ⟨members, hg, hid⟩ := OrderedMap.getIn_eq_some.mp h
  have hm : m ∈ members.values := OrderedMap.mem_values.mpr ⟨id, hid⟩
  have hkey := OrderedMap.byKey_covers (f := VoiceMember.userId) hm
  obtain ⟨⟨k, v⟩, hv, hk⟩ := List.mem_map.mp hkey
  unfold VoiceRoster.list
  rw [hg]
  refine List.mem_map.mpr ⟨v, List.mem_map_of_mem hv, ?_⟩
  rw [(OrderedMap.mem_byKey hv).2]
  exact hk

/-- A socket that is in one room leaves it. -/
theorem leave_eq {room id : String} {r : VoiceRoster} (h : ∀ room', (r.byRoom.getIn room' id).isSome ↔ room' = room) :
    r.leave id = (some room, { byRoom := r.byRoom.deleteIn room id }) := by
  unfold VoiceRoster.leave
  split
  · rename_i hf
    obtain ⟨m, hm⟩ := Option.isSome_iff_exists.mp ((h room).mpr rfl)
    obtain ⟨members, hg, hid⟩ := OrderedMap.getIn_eq_some.mp hm
    have hnot := List.find?_eq_none.mp hf _ (OrderedMap.get_eq_some.mp hg)
    simp [OrderedMap.has, hid] at hnot
  · rename_i room' members hf
    have hg := OrderedMap.get_eq_some.mpr (List.mem_of_find?_eq_some hf)
    have hhas := List.find?_some hf
    obtain ⟨m, hid⟩ : ∃ m, members.get id = some m := Option.isSome_iff_exists.mp hhas
    obtain rfl := (h room').mp (Option.isSome_iff_exists.mpr ⟨m, OrderedMap.getIn_eq_some.mpr ⟨members, hg, hid⟩⟩)
    rfl

/-- A map of rooms has each socket where it is on a call. -/
def Says {V : Type} (m : OrderedMap String (OrderedMap String V)) (call : String → Option String)
    (v : String → V) : Prop :=
  ∀ room id, m.getIn room id = if call id = some room then some (v id) else none

section Says

variable {V : Type} {m : OrderedMap String (OrderedMap String V)} {call : String → Option String} {v : String → V}

theorem Says.isSome_iff (h : Says m call v) {room id : String} : (m.getIn room id).isSome ↔ call id = some room := by
  rw [h room id]
  split <;> simp_all

theorem Says.setIn (h : Says m call v) {roomCode id : String} (hc : ∀ room, call id = some room → room = roomCode) :
    Says (m.setIn roomCode id (v id)) (Function.update call id (some roomCode)) v := by
  intro room id'
  rw [OrderedMap.getIn_setIn, h room id']
  by_cases hid : id' = id
  · subst hid
    by_cases hr : room = roomCode
    · simp [hr]
    · have hcur : ¬call id' = some room := fun hcur => hr (hc room hcur)
      simp [hr, hcur, Ne.symm hr]
  · simp [hid]

theorem Says.deleteIn (h : Says m call v) {room id : String} (hc : call id = some room) :
    Says (m.deleteIn room id) (Function.update call id none) v := by
  intro room' id'
  rw [OrderedMap.getIn_deleteIn, h room' id']
  by_cases hid : id' = id
  · subst hid
    by_cases hr : room' = room
    · simp [hr]
    · simp [hr, hc, Ne.symm hr]
  · simp [hid]

end Says

/-- What a run keeps: each map has the current call of every socket. -/
structure Kept (identity : String → VoiceMember) (call : String → Option String) (c : VoiceGateway) : Prop where
  users : ∀ id, c.joinedRoom id = call id
  rooms : Says c.roomVoiceUsers call fun _ => ()
  roster : Says c.roster.byRoom call identity

/-! ## What a handler keeps -/

section Steps

variable {identity : String → VoiceMember} {call : String → Option String} {c : VoiceGateway}

/-- A handler that acts in no room leaves the maps. -/
theorem inRoom_cases (id : String) (c : VoiceGateway) (act : String → Stretch) :
    (∃ room, c.joinedRoom id = some room ∧ room ≠ "" ∧ inRoom id c act = act room) ∨
      (∀ room, c.joinedRoom id = some room → room = "") ∧ inRoom id c act = ends c [] := by
  unfold inRoom
  cases hj : c.joinedRoom id with
  | none => exact Or.inr ⟨(fun _ h => nomatch h), rfl⟩
  | some room =>
    by_cases hr : room = ""
    · refine Or.inr ⟨fun room' h => ?_, if_pos hr⟩
      cases h
      exact hr
    · exact Or.inl ⟨room, rfl, hr, if_neg hr⟩

/-- A change of a user's flags leaves the rooms. -/
theorem joinedRoom_flags {id : String} {u : VoiceUser} (h : c.voiceUsers.get id = some u) (u' : VoiceUser)
    (hr : u'.roomCode = u.roomCode) (id' : String) :
    VoiceGateway.joinedRoom id' { c with voiceUsers := c.voiceUsers.set id u' } = c.joinedRoom id' := by
  simp only [VoiceGateway.joinedRoom, OrderedMap.get_set]
  split
  · rename_i he
    rw [he, h, Option.map_some, Option.map_some, hr]
  · rfl

theorem Kept.flags (hk : Kept identity call c) {id : String} {u : VoiceUser} (h : c.voiceUsers.get id = some u)
    (u' : VoiceUser) (hr : u'.roomCode = u.roomCode) :
    Kept identity call { c with voiceUsers := c.voiceUsers.set id u' } :=
  ⟨fun id' => (joinedRoom_flags h u' hr id').trans (hk.users id'), hk.rooms, hk.roster⟩

/-- What the other messages change: nothing that says who is on a call. -/
theorem flags_kept {r : Request} (hj : ∀ id roomCode, r ≠ .join id roomCode) (hl : ∀ id, r ≠ .leave id)
    (hd : ∀ id, r ≠ .disconnect id) (hk : Kept identity call c) : Kept identity call (start identity r c).loc := by
  cases r with
  | join id roomCode => exact absurd rfl (hj id roomCode)
  | leave id => exact absurd rfl (hl id)
  | disconnect id => exact absurd rfl (hd id)
  | muteToggle id isMuted =>
    simp only [start, handleMuteToggle]
    rcases inRoom_cases id c _ with ⟨room, -, -, h⟩ | ⟨-, h⟩
    · rw [h]
      cases hu : c.voiceUsers.get id with
      | none => exact hk
      | some u =>
        exact hk.flags hu { u with isMuted } rfl
    · rw [h]
      exact hk
  | deafenToggle id isDeafened =>
    simp only [start, handleDeafenToggle]
    rcases inRoom_cases id c _ with ⟨room, -, -, h⟩ | ⟨-, h⟩
    · rw [h]
      cases hu : c.voiceUsers.get id with
      | none => exact hk
      | some u =>
        exact hk.flags hu { u with isDeafened, isMuted := isDeafened || u.isMuted } rfl
    · rw [h]
      exact hk
  | speaking id isSpeaking =>
    simp only [start, handleSpeaking]
    rcases inRoom_cases id c _ with ⟨room, -, -, h⟩ | ⟨-, h⟩
    · rw [h]
      exact hk
    · rw [h]
      exact hk

/-- The disconnect of a socket does what its leave does. -/
theorem disconnect_loc (id : String) (c : VoiceGateway) :
    (handleDisconnect id c).loc = (handleLeaveVoice id c).loc := by
  unfold handleDisconnect
  cases hu : c.voiceUsers.get id with
  | none =>
    have hj : c.joinedRoom id = none := by
      rw [VoiceGateway.joinedRoom, hu]
      rfl
    rw [handleLeaveVoice, inRoom, hj]
  | some u => rfl

/-- **A join** keeps the maps, where the socket is in no other call. -/
theorem kept_join {id roomCode : String} (hc : ∀ room, call id = some room → room = roomCode)
    (hk : Kept identity call c) :
    Kept identity (Function.update call id (some roomCode)) (handleJoinVoiceChat identity id roomCode c).loc := by
  refine ⟨fun id' => ?_, hk.rooms.setIn hc, hk.roster.setIn hc⟩
  simp only [handleJoinVoiceChat, awaits, VoiceGateway.joinedRoom, OrderedMap.get_set, Function.update_apply]
  split
  · rfl
  · exact hk.users id'

/-- **A leave** keeps the maps, where the code of the room is not empty. -/
theorem kept_leave {id : String} (hc : call id ≠ some "") (hk : Kept identity call c) :
    Kept identity (Function.update call id none) (handleLeaveVoice id c).loc := by
  unfold handleLeaveVoice
  rcases inRoom_cases id c _ with ⟨room, hj, -, h⟩ | ⟨hnone, h⟩
  · have hcur : call id = some room := (hk.users id).symm.trans hj
    have hleave : c.roster.leave id = (some room, { byRoom := c.roster.byRoom.deleteIn room id }) := by
      refine leave_eq fun room' => ?_
      rw [hk.roster.isSome_iff, hcur, Option.some.injEq]
      exact eq_comm
    rw [h, hleave]
    refine ⟨fun id' => ?_, hk.rooms.deleteIn hcur, hk.roster.deleteIn hcur⟩
    simp only [awaits, VoiceGateway.joinedRoom, OrderedMap.get_delete, Function.update_apply]
    split
    · rfl
    · exact hk.users id'
  · have hcur : call id = none := by
      cases hcur : call id with
      | none => rfl
      | some room =>
        have hempty := hnone room ((hk.users id).trans hcur)
        exact absurd (hempty ▸ hcur) hc
    have hsame : Function.update call id none = call := by
      rw [← hcur]
      exact Function.update_eq_self id call
    rw [h, hsame]
    exact hk

/-- No map changes while a handler awaits. -/
@[simp] theorem resume_loc (p : Point) (ok : Bool) (c : VoiceGateway) : (resume identity p ok c).loc = c := by
  cases p <;> cases ok <;> rfl

end Steps

section Runs

variable {identity : String → VoiceMember} {I : Type} [DecidableEq I] {i : I} {s s' : State I} {a : Action I}
  {o : Output I} {tr : List (Event I)}

/-- What holds of every instance: its maps have the current calls, and a socket that has disconnected is on none. -/
def AllKept (identity : String → VoiceMember) (tr : List (Event I)) (s : State I) : Prop :=
  ∀ i, Kept identity (currentCall i tr) (s.node i).loc ∧ ∀ id, Disconnected i id tr → currentCall i tr id = none

/-- A step that is not a request leaves the maps and the calls. -/
theorem waits_step (tr : List (Event I)) (hs : Step identity s a o s') (ha : ∀ i r, a ≠ .start i r) (i : I) :
    (s'.node i).loc = (s.node i).loc ∧ currentCall i (tr ++ [⟨s, a, o, s'⟩]) = currentCall i tr := by
  constructor
  · rcases Tasks.loc_cases hs i with h | ⟨d, t, hb, h⟩
    · exact h
    · rw [h]
      cases hb with
      | start r hm => exact absurd hm (ha i r)
      | resume pre post p r hm hc => exact resume_loc p r _
      | enter q => exact nomatch q
  · rw [currentCall_snoc, callAfter]
    cases a with
    | start j r => exact absurd rfl (ha j r)
    | _ => rfl

/-- The calls of another instance. -/
theorem currentCall_of_ne {r : Request} {j : I} (h : ¬i = j) :
    currentCall j (tr ++ [⟨s, .start i r, o, s'⟩]) = currentCall j tr := by
  rw [currentCall_snoc]
  cases r <;> simp [callAfter, h]

/-- The calls after a request. -/
theorem currentCall_request (r : Request) : currentCall i (tr ++ [⟨s, .start i r, o, s'⟩]) =
    match r with
    | .join id roomCode => Function.update (currentCall i tr) id (some roomCode)
    | .leave id => Function.update (currentCall i tr) id none
    | .disconnect id => Function.update (currentCall i tr) id none
    | _ => currentCall i tr := by
  rw [currentCall_snoc]
  cases r <;> simp [callAfter]

/-- A request keeps the maps, where it is orderly. -/
theorem kept_request {r : Request} (hc : Orderly tr ⟨s, .start i r, o, s'⟩) {c : VoiceGateway}
    (hk : Kept identity (currentCall i tr) c) :
    Kept identity (currentCall i (tr ++ [⟨s, .start i r, o, s'⟩])) (start identity r c).loc := by
  rw [currentCall_request]
  cases r with
  | join id roomCode => exact kept_join hc.2 hk
  | leave id => exact kept_leave hc hk
  | disconnect id =>
    simp only [start, disconnect_loc]
    exact kept_leave hc hk
  | _ => exact flags_kept nofun nofun nofun hk

/-- A socket that has disconnected is on no call after an orderly request. -/
theorem gone_request {r : Request} (hc : Orderly tr ⟨s, .start i r, o, s'⟩)
    (hg : ∀ id, Disconnected i id tr → currentCall i tr id = none) (id : String)
    (hd : Disconnected i id (tr ++ [⟨s, .start i r, o, s'⟩])) :
    currentCall i (tr ++ [⟨s, .start i r, o, s'⟩]) id = none := by
  rw [currentCall_request]
  rcases disconnected_snoc.mp hd with hold | hnew
  · cases r with
    | join id' roomCode =>
      have hne : id ≠ id' := fun h => hc.1 (h ▸ hold)
      exact (Function.update_of_ne hne _ _).trans (hg id hold)
    | leave id' | disconnect id' =>
      simp only [Function.update_apply]
      split
      · rfl
      · exact hg id hold
    | _ => exact hg id hold
  · cases hnew
    exact Function.update_self ..

/-- **One orderly step** keeps the maps of every instance. -/
theorem allKept_step (hs : Step identity s a o s') (hc : Orderly tr ⟨s, a, o, s'⟩) (hI : AllKept identity tr s) :
    AllKept identity (tr ++ [⟨s, a, o, s'⟩]) s' := by
  intro j
  obtain ⟨hk, hg⟩ := hI j
  by_cases ha : ∃ i r, a = .start i r
  · obtain ⟨i, r, rfl⟩ := ha
    by_cases hij : i = j
    · subst hij
      obtain ⟨hnode, -⟩ := Tasks.started hs
      rw [hnode, Desk.after_loc]
      exact ⟨kept_request hc hk, gone_request hc hg⟩
    · have hloc : (s'.node j).loc = (s.node j).loc := by
        cases hs with
        | start => rw [Office.put_of_ne _ (Ne.symm hij)]
        | idle m hm hx hr => rfl
      rw [hloc, currentCall_of_ne hij]
      refine ⟨hk, fun id hd => ?_⟩
      rcases disconnected_snoc.mp hd with hd | hd
      · exact hg id hd
      · cases hd
        exact absurd rfl hij
  · have ha' : ∀ i r, a ≠ .start i r := fun i r h => ha ⟨i, r, h⟩
    obtain ⟨hloc, hcall⟩ := waits_step tr hs ha' j
    rw [hloc, hcall]
    refine ⟨hk, fun id hd => ?_⟩
    rcases disconnected_snoc.mp hd with hd | hd
    · exact hg id hd
    · exact absurd hd (ha' j _)

/-- Maps that have the current calls match them. -/
theorem matches_of_kept {c : VoiceGateway} (hk : Kept identity (currentCall i tr) c)
    (hg : ∀ id, Disconnected i id tr → currentCall i tr id = none) : Matches identity i tr c where
  calls id room := hk.roster.isSome_iff
  one id room room' h h' := by
    rw [hk.roster.isSome_iff] at h h'
    exact Option.some.inj (h.symm.trans h')
  named room m hm := by
    obtain ⟨id, hid⟩ := mem_list hm
    rw [hk.roster room id] at hid
    split at hid
    · rename_i hcall
      exact ⟨id, hcall, Option.some.inj hid⟩
    · cases hid
  names room id hcall := list_names ((hk.roster room id).trans (if_pos hcall))
  rooms id room := by
    rw [mem_sockets, hk.rooms.isSome_iff, hk.users]
  roster id room := by
    rw [hk.roster.isSome_iff, hk.users]
  gone id hd := by
    have hnone := hg id hd
    refine ⟨(hk.users id).trans hnone, fun room => ?_⟩
    rw [mem_sockets, hk.rooms.isSome_iff, ← Bool.not_eq_true, hk.roster.isSome_iff, hnone]
    exact ⟨nofun, nofun⟩

/-- A socket that leaves a room with an empty code stays listed. -/
theorem leaves_room {r : Request} {id : String} (hr : r = .leave id ∨ r = .disconnect id) {c : VoiceGateway}
    (hk : Kept identity (currentCall i tr) c)
    (hm : Matches identity i (tr ++ [⟨s, .start i r, o, s'⟩]) (start identity r c).loc) :
    currentCall i tr id ≠ some "" := by
  intro hcall
  have hsame : (handleLeaveVoice id c).loc = c := by
    rw [handleLeaveVoice, inRoom, (hk.users id).trans hcall]
    rfl
  have hstart : (start identity r c).loc = c := by
    rcases hr with rfl | rfl
    · exact hsame
    · exact (disconnect_loc id c).trans hsame
  have hnone : currentCall i (tr ++ [⟨s, .start i r, o, s'⟩]) id = none := by
    rw [currentCall_request]
    rcases hr with rfl | rfl <;> exact Function.update_self ..
  rw [hstart] at hm
  have hcalls := (hm.calls id "").mp (hk.roster.isSome_iff.mpr hcall)
  rw [hnone] at hcalls
  cases hcalls

/-- A step that is not orderly leaves maps that do not match. -/
theorem orderly_of_matches (hs : Step identity s a o s') (hI : AllKept identity tr s)
    (hm : ∀ i, Matches identity i (tr ++ [⟨s, a, o, s'⟩]) (s'.node i).loc) : Orderly tr ⟨s, a, o, s'⟩ := by
  cases a with
  | start i r =>
    obtain ⟨hk, hg⟩ := hI i
    have hm := hm i
    obtain ⟨hnode, -⟩ := Tasks.started hs
    rw [hnode, Desk.after_loc] at hm
    cases r with
    | join id roomCode =>
      have hjoined : VoiceGateway.joinedRoom id (start identity (.join id roomCode) (s.node i).loc).loc =
          some roomCode := by
        simp [start, handleJoinVoiceChat, awaits, VoiceGateway.joinedRoom]
      refine ⟨fun hd => ?_, fun room hcall => ?_⟩
      · have hnone := (hm.gone id (disconnected_snoc.mpr (Or.inl hd))).1
        exact absurd (hjoined.symm.trans hnone) (by simp)
      · refine hm.one id room roomCode ?_ ((hm.roster id roomCode).mpr hjoined)
        have hlisted := hk.roster.isSome_iff.mpr hcall
        have hset := OrderedMap.getIn_setIn (s.node i).loc.roster.byRoom roomCode room id id (identity id)
        refine (congrArg Option.isSome hset).trans ?_
        split
        · rfl
        · exact hlisted
    | leave id => exact leaves_room (Or.inl rfl) hk hm
    | disconnect id => exact leaves_room (Or.inr rfl) hk hm
    | _ => exact trivial
  | _ => exact trivial

end Runs

/-- **The voice roster matches the calls** in every state of a run, on every instance, exactly when the steps of the run
are orderly. -/
theorem roster_matches_iff {I : Type} [DecidableEq I] (identity : String → VoiceMember) (ops : List (Action I)) :
    (∀ as, as <+: ops → ∀ i,
      Matches identity i ((machine I identity).trace as) (((machine I identity).run as).node i).loc) ↔
      Machine.Always Orderly ((machine I identity).trace ops) := by
  have hkept : ∀ as, Machine.Always Orderly ((machine I identity).trace as) →
      AllKept identity ((machine I identity).trace as) ((machine I identity).run as) := fun as =>
    (machine I identity).invariant_always (P := Orderly) (I := AllKept identity)
      (fun i => ⟨⟨fun _ => rfl, fun _ _ => rfl, fun _ _ => rfl⟩, fun id _ => rfl⟩)
      (fun tr s a hc hI => allKept_step ((calls identity).step_cases s a) hc hI) as
  constructor
  · intro hm
    induction ops using List.reverseRecOn with
    | nil => exact fun n h => absurd h (Nat.not_lt_zero n)
    | append_singleton ops a ih =>
      have hbefore := ih fun as has i => hm as (has.trans (List.prefix_append _ _)) i
      have hafter := hm (ops ++ [a]) List.prefix_rfl
      rw [Machine.trace_snoc, Machine.run_snoc] at hafter
      rw [Machine.trace_snoc, Machine.always_snoc]
      exact ⟨hbefore, orderly_of_matches ((calls identity).step_cases _ a) (hkept ops hbefore) hafter⟩
  · rintro h as ⟨bs, rfl⟩ i
    rw [Machine.trace_append] at h
    obtain ⟨hk, hg⟩ := hkept as h.of_append i
    exact matches_of_kept hk hg

/-- A socket joins the call of one room, then that of another, and disconnects. -/
def changesRooms : List (Action Unit) :=
  [.start () (.join "s" "A"), .exec () 0 true, .deliver () 0, .start () (.join "s" "B"), .exec () 0 true, .deliver () 0,
    .start () (.disconnect "s"), .exec () 0 true, .deliver () 0]

/-- The gateway keeps it in the first room, and the roster in the second. -/
theorem roster_leaks : ¬∀ as, as <+: changesRooms → ∀ i,
    Matches (fun _ => ⟨"ann", "ann"⟩) i ((machine Unit fun _ => ⟨"ann", "ann"⟩).trace as)
      (((machine Unit fun _ => ⟨"ann", "ann"⟩).run as).node i).loc := by
  intro h
  have hgone := (h changesRooms List.prefix_rfl ()).gone "s" ⟨_, List.mem_of_getElem? (i := 6) rfl, rfl⟩
  have hlisted : ((((machine Unit fun _ => ⟨"ann", "ann"⟩).run changesRooms).node ()).loc.roster.byRoom.getIn "B"
      "s").isSome = true := by decide +kernel
  rw [(hgone.2 "B").2] at hlisted
  cases hlisted

end Voice
end WatchParty
