import WatchParty.Lib.Walks
import WatchParty.Media.Url

/-!
# What is under `/media/`

The dot segments of a path as a walk.

- `resolve_eq`: the path state walks along the steps of the segments;
- `under_media_iff`: an input under the base is under `/media/` iff its path stays there, which counts names and ups;
- `inputOf_plain`: the parser reads the ASCII that an input begins with as it is.
-/

namespace WatchParty
namespace Media

open JSString Walks

/-! ## The segments as steps -/

def isDot (s : JSString) : Bool := isDoubleDot s || isSingleDot s

/-- The steps of the segments: the last one always leads down. -/
def steps : List JSString → List (Step JSString)
  | [] => []
  | s :: rest =>
    (if isDoubleDot s then [.up] else if isSingleDot s then [] else [.down s]) ++
      if rest = [] ∧ isDot s then [.down []] else steps rest

def media : JSString := ascii "media".toList

/-- The path can be cut at a segment `media` with something behind it, so that what is before ends at the root, and what
is behind never goes up out of it. -/
def StaysInMedia (path : List Char) : Prop :=
  ∃ before after, steps (pieces path) = before ++ .down media :: after ∧ after ≠ [] ∧ Returns before ∧ Stays after

theorem resolve_eq (path segments : List JSString) : resolve path segments = walkFrom path (steps segments) := by
  induction segments generalizing path with
  | nil => rfl
  | cons s rest ih =>
    have hlast : ∀ path, isDot s = true → resolve (if rest = [] then path ++ [[]] else path) rest =
        walkFrom path (if rest = [] ∧ isDot s then [.down []] else steps rest) := by
      intro path hdot
      by_cases hr : rest = []
      · subst hr
        rw [if_pos rfl, if_pos ⟨rfl, hdot⟩]
        rfl
      · rw [if_neg hr, if_neg fun h => hr h.1, ih]
    unfold resolve steps
    rw [walkFrom_append]
    by_cases hdouble : isDoubleDot s = true
    · rw [if_pos hdouble, if_pos hdouble]
      exact hlast path.dropLast (by rw [isDot, hdouble, Bool.true_or])
    · rw [if_neg hdouble, if_neg hdouble]
      by_cases hsingle : isSingleDot s = true
      · rw [if_pos hsingle, if_pos hsingle]
        exact hlast path (by rw [isDot, hsingle, Bool.or_true])
      · have hdot : ¬(rest = [] ∧ isDot s = true) := by simp [isDot, hdouble, hsingle]
        rw [if_neg hsingle, if_neg hsingle, if_neg hdot, ih]
        rfl

theorem steps_last {segments : List JSString} (h : segments ≠ []) : ∃ init b, steps segments = init ++ [.down b] := by
  induction segments with
  | nil => exact absurd rfl h
  | cons s rest ih =>
    unfold steps
    by_cases hlast : rest = [] ∧ isDot s = true
    · rw [if_pos hlast]
      exact ⟨_, _, rfl⟩
    · rw [if_neg hlast]
      by_cases hr : rest = []
      · have hdot : isDoubleDot s = false ∧ isSingleDot s = false := by simpa [hr, isDot] using hlast
        rw [hdot.1, hdot.2, hr]
        exact ⟨[], s, rfl⟩
      · obtain ⟨init, b, he⟩ := ih hr
        rw [he, ← List.append_assoc]
        exact ⟨_, _, rfl⟩

theorem mem_steps {segments : List JSString} {b : JSString} (h : .down b ∈ steps segments) : b ∈ segments ∨ b = [] := by
  induction segments with
  | nil => cases h
  | cons s rest ih =>
    unfold steps at h
    rcases List.mem_append.mp h with hmem | hmem
    · left
      split at hmem
      · cases List.mem_singleton.mp hmem
      · split at hmem
        · cases hmem
        · obtain rfl := Step.down.inj (List.mem_singleton.mp hmem)
          exact List.mem_cons_self
    · split at hmem
      · exact Or.inr (Step.down.inj (List.mem_singleton.mp hmem))
      · exact (ih hmem).imp_left (List.mem_cons_of_mem _)

/-- A path resolves to something below `media` iff it stays there. -/
theorem resolve_media {segments : List JSString} (h : segments ≠ []) :
    (∃ q, resolve [] segments = media :: q ∧ q ≠ []) ↔
      ∃ before after, steps segments = before ++ .down media :: after ∧ after ≠ [] ∧ Returns before ∧ Stays after := by
  rw [resolve_eq]
  constructor
  · rintro ⟨q, hq, hne⟩
    obtain ⟨before, after, he, hr, hs, hlen⟩ := cut_of_walk hq
    refine ⟨before, after, he, ?_, hr, hs⟩
    rintro rfl
    exact hne (List.length_eq_zero_iff.mp hlen)
  · rintro ⟨before, after, he, hne, hr, hs⟩
    obtain ⟨init, b, hlast⟩ := steps_last h
    obtain ⟨after', x, rfl⟩ := List.eq_nil_or_concat after |>.resolve_left hne
    rw [List.concat_eq_append] at he hs
    have hx : x = .down b := by
      rw [hlast, ← List.cons_append, ← List.append_assoc] at he
      exact (List.append_inj' he rfl).2 |> List.singleton_inj.mp |>.symm
    subst hx
    have hlt := hs.names_lt
    obtain ⟨q, hq, hlen⟩ := walk_eq_cons.mpr ⟨before, _, he, hr, hs, Nat.sub_add_cancel hlt.le⟩
    refine ⟨q, hq, ?_⟩
    rintro rfl
    rw [List.length_nil] at hlen
    omega

/-! ## The text of a path -/

theorem not_sep_of_mem_splitOnP {p : Char → Bool} {cs s : List Char} (h : s ∈ cs.splitOnP p) : ∀ c ∈ s, p c = false := by
  induction cs generalizing s with
  | nil =>
    rw [List.splitOnP_nil, List.mem_singleton] at h
    subst h
    intro c hc
    cases hc
  | cons x cs ih =>
    rw [List.splitOnP_cons_eq_if_modifyHead] at h
    by_cases hx : p x = true
    · rw [if_pos hx] at h
      rcases List.mem_cons.mp h with rfl | hmem
      · intro c hc
        cases hc
      · exact ih hmem
    · rw [if_neg hx] at h
      obtain ⟨hd, tl, he⟩ := List.exists_cons_of_ne_nil (List.splitOnP_ne_nil p cs)
      rw [he, List.modifyHead_cons] at h
      rcases List.mem_cons.mp h with rfl | hmem
      · intro c hc
        rcases List.mem_cons.mp hc with rfl | hc
        · simpa using hx
        · exact ih (he ▸ List.mem_cons_self) c hc
      · exact ih (he ▸ List.mem_cons_of_mem _ hmem)

theorem hexDigit_ne : ∀ n < 16, hexDigit n ≠ 0x2f := by decide

/-- No character but the slash is encoded with a slash. -/
theorem slash_not_mem_encode {c : Char} (h : isSlash c = false) : 0x2f ∉ percentEncode pathSet c := by
  unfold percentEncode
  split
  · intro hmem
    obtain ⟨b, -, hb⟩ := List.mem_flatMap.mp hmem
    have hlow := hexDigit_ne (b.toNat % 16) (Nat.mod_lt _ (by decide))
    have hhigh := hexDigit_ne (b.toNat / 16) (Nat.div_lt_of_lt_mul b.toNat_lt)
    rcases List.mem_cons.mp hb with he | hb
    · exact absurd he (by decide)
    · rcases List.mem_cons.mp hb with he | hb
      · exact hhigh he.symm
      · exact hlow (List.mem_singleton.mp hb).symm
  · rename_i hset
    have hle : c.toNat ≤ 0x7e := by
      by_contra hgt
      exact hset (by simp [pathSet, Nat.lt_of_not_le hgt])
    have hunit : units [c] = [c.toNat.toUInt16] := by simp [units, Nat.lt_of_le_of_lt hle]
    rw [hunit, List.mem_singleton]
    intro he
    have hnat : c.toNat = 0x2f := by
      have h16 : (c.toNat.toUInt16).toNat = c.toNat := UInt16.toNat_ofNat_of_lt' (Nat.lt_of_le_of_lt hle (by decide))
      rw [← h16, ← he]
      rfl
    have hc : c = '/' := Char.toNat_inj.mp hnat
    rw [hc] at h
    exact absurd h (by decide)

theorem slash_not_mem_pieces {path : List Char} {s : JSString} (h : s ∈ pieces path) : 0x2f ∉ s := by
  obtain ⟨cs, hcs, rfl⟩ := List.mem_map.mp h
  intro hmem
  obtain ⟨c, hc, hin⟩ := List.mem_flatMap.mp hmem
  exact slash_not_mem_encode (not_sep_of_mem_splitOnP hcs c hc) hin

theorem pieces_ne_nil (path : List Char) : pieces path ≠ [] := by
  intro h
  exact List.splitOnP_ne_nil _ _ (List.map_eq_nil_iff.mp h)

/-- A path is under `/media/` iff its first name is `media` and is not its last. -/
theorem media_prefix_iff {path : List JSString} (h : ∀ s ∈ path, 0x2f ∉ s) :
    ascii "/media/".toList <+: (path.flatMap fun s => 0x2f :: s) ↔ ∃ q, path = media :: q ∧ q ≠ [] := by
  have htext : ascii "/media/".toList = 0x2f :: (media ++ [0x2f]) := by decide
  rw [htext]
  constructor
  · rintro ⟨r, hr⟩
    cases path with
    | nil => cases hr
    | cons s q =>
      have hs := h s List.mem_cons_self
      have htail : media ++ 0x2f :: r = s ++ q.flatMap fun s => 0x2f :: s := by simpa using hr
      cases q with
      | nil =>
        rw [List.flatMap_nil, List.append_nil] at htail
        exact absurd (htail ▸ List.mem_append_right _ List.mem_cons_self) hs
      | cons t q =>
        rw [List.flatMap_cons, List.cons_append] at htail
        have hsplit := congrArg (List.splitOn 0x2f) htail
        rw [List.splitOn_append_cons_self_of_not_mem (by decide), List.splitOn_append_cons_self_of_not_mem hs] at hsplit
        obtain ⟨rfl, -⟩ := List.cons.inj hsplit
        exact ⟨t :: q, rfl, List.cons_ne_nil t q⟩
  · rintro ⟨q, rfl, hne⟩
    obtain ⟨t, q, rfl⟩ := List.exists_cons_of_ne_nil hne
    exact ⟨t ++ q.flatMap fun s => 0x2f :: s, by simp⟩

/-- **What is under `/media/`**: an input without a scheme and an authority is, iff its path stays there. -/
theorem under_media_iff (cs : List Char) :
    ascii "/media/".toList <+: (relative cs).pathname ↔ StaysInMedia (pathOf cs) := by
  have hslash : ∀ s ∈ resolve [] (pieces (pathOf cs)), 0x2f ∉ s := by
    intro s hs
    rw [resolve_eq] at hs
    rcases mem_walkFrom hs with hnil | hstep
    · cases hnil
    · rcases mem_steps hstep with hpiece | rfl
      · exact slash_not_mem_pieces hpiece
      · exact List.not_mem_nil
  exact (media_prefix_iff hslash).trans (resolve_media (pieces_ne_nil _))

/-! ## The inputs that begin with ASCII -/

/-- The parser reads the ASCII that an input begins with as it is. -/
theorem inputOf_plain {p : List Char} (hp : ∀ c ∈ p, Plain c) (hne : p ≠ []) (us : JSString) :
    ∃ t, inputOf (ascii p ++ us) = p ++ t := by
  have hkept : ∀ c ∈ p, isC0OrSpace c = false := by
    intro c hc
    simpa [isC0OrSpace] using (hp c hc).1
  have hdrop : ∀ t, (p ++ t).dropWhile isC0OrSpace = p ++ t := by
    intro t
    obtain ⟨c, cs, rfl⟩ := List.exists_cons_of_ne_nil hne
    exact List.dropWhile_cons_of_neg (by simp [hkept c List.mem_cons_self])
  have hback : p.reverse.dropWhile isC0OrSpace = p.reverse := by
    obtain ⟨c, cs, he⟩ := List.exists_cons_of_ne_nil (List.reverse_ne_nil_iff.mpr hne)
    have hc : c ∈ p := List.mem_reverse.mp (he ▸ List.mem_cons_self)
    rw [he]
    exact List.dropWhile_cons_of_neg (by simp [hkept c hc])
  have hend : ∀ t : List Char, ((p ++ t).reverse.dropWhile isC0OrSpace).reverse =
      p ++ (t.reverse.dropWhile isC0OrSpace).reverse := by
    intro t
    rw [List.reverse_append, List.dropWhile_append, hback]
    split
    · rename_i hempty
      rw [List.isEmpty_iff.mp hempty, List.reverse_reverse, List.reverse_nil, List.append_nil]
    · rw [List.reverse_append, List.reverse_reverse]
  have hfilter : p.filter (fun c => c.toNat ∉ [9, 10, 13]) = p := by
    refine List.filter_eq_self.mpr fun c hc => ?_
    have hlow := (hp c hc).1
    simp
    omega
  unfold inputOf
  rw [scalars_ascii hp, hdrop, hend, List.filter_append, hfilter]
  exact ⟨_, rfl⟩

end Media
end WatchParty
