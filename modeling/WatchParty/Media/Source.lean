import WatchParty.Media.Path

/-!
# Video sources

`shared/media-source.ts`: what a `videoUrl` means, and which are let in.

- `classifyMediaSource` and `isAcceptableVideoUrl`, over any parser of absolute URLs;
- `MountSafe` is what a player may rely on, and `mount_safe_iff` says for which inputs it does: two kinds are let through
  that are not safe, a player URL of Vimeo whose `h` is not a key, and a path that leaves `/media/`.
-/

namespace WatchParty
namespace Media

open JSString

inductive Reason
  | empty
  | unsupported
  deriving DecidableEq, Repr

inductive Container
  | mp4
  | webm
  | ogg
  | unknown
  deriving DecidableEq, Repr

inductive MediaSource
  | none (reason : Reason)
  | youtube (videoId : JSString)
  | vimeo (videoId : JSString) (hash : Option JSString)
  | hls (url : JSString)
  | file (url : JSString) (container : Container)
  deriving DecidableEq, Repr

def VIDEO_URL_MAX_LEN : ℕ := 2048

/-! ## The patterns -/

def isDigit (u : UInt16) : Bool := 0x30 ≤ u ∧ u ≤ 0x39

def isAlphanumeric (u : UInt16) : Bool := isDigit u ∨ (0x41 ≤ u ∧ u ≤ 0x5a) ∨ (0x61 ≤ u ∧ u ≤ 0x7a)

/-- `/^[A-Za-z0-9_-]{11}$/` -/
def YT_ID (s : JSString) : Bool := s.length = 11 ∧ s.all fun u => isAlphanumeric u ∨ u = 0x5f ∨ u = 0x2d

/-- `/^\d+$/` -/
def isDigits (s : JSString) : Bool := s ≠ [] ∧ s.all isDigit

/-- `/^[A-Za-z0-9]+$/` -/
def isKey (s : JSString) : Bool := s ≠ [] ∧ s.all isAlphanumeric

/-- A prefix, and `\S+` to the end. -/
def shape (p : List Char) (s : JSString) : Bool :=
  ((ascii p).isPrefixOf s) ∧ s.drop p.length ≠ [] ∧ (s.drop p.length).all fun u => !isSpace u

/-- `/^https?:\/\/\S+$/` -/
def absoluteShape (s : JSString) : Bool := shape "http://".toList s ∨ shape "https://".toList s

/-- `/^\/?media\/\S+$/` -/
def mediaShape (s : JSString) : Bool := shape "/media/".toList s ∨ shape "media/".toList s

/-- `VIDEO_URL_SHAPE.test` -/
def VIDEO_URL_SHAPE (s : JSString) : Bool := absoluteShape s ∨ mediaShape s

/-! ## The classification -/

def YT_HOSTS : List JSString :=
  [ascii "youtube.com".toList, ascii "m.youtube.com".toList, ascii "music.youtube.com".toList,
    ascii "youtube-nocookie.com".toList]

def hostOf (u : URL) : JSString :=
  let h := toLowerCase u.hostname
  if h.take 4 = ascii "www.".toList then h.drop 4 else h

def segmentsOf (u : URL) : List JSString := (u.pathname.splitOn 0x2f).filter fun s => s.length > 0

def extractYouTubeId (u : URL) (host : JSString) : Option JSString :=
  if host = ascii "youtu.be".toList then (segmentsOf u).head?
  else if (segmentsOf u).head? = some (ascii "watch".toList) then u.getParam (ascii "v".toList)
  else
    match segmentsOf u with
    | first :: second :: _ =>
      if first = ascii "embed".toList ∨ first = ascii "shorts".toList ∨ first = ascii "live".toList ∨
          first = ascii "v".toList then some second
      else none
    | _ => none

def classifyVimeo (u : URL) (host : JSString) : MediaSource :=
  if host = ascii "player.vimeo.com".toList then
    match segmentsOf u with
    | first :: second :: _ =>
      if first = ascii "video".toList ∧ isDigits second then
        match u.getParam (ascii "h".toList) with
        | some h => if h ≠ [] then .vimeo second (some h) else .vimeo second none
        | none => .vimeo second none
      else .none .unsupported
    | _ => .none .unsupported
  else
    match segmentsOf u with
    | first :: rest =>
      if isDigits first then
        match rest with
        | h :: _ => if isKey h then .vimeo first (some h) else .vimeo first none
        | [] => .vimeo first none
      else .none .unsupported
    | [] => .none .unsupported

def byExtension (u : URL) (raw : JSString) : Option MediaSource :=
  let p := toLowerCase u.pathname
  if (ascii ".m3u8".toList).isSuffixOf p then some (.hls raw)
  else if (ascii ".mp4".toList).isSuffixOf p then some (.file raw .mp4)
  else if (ascii ".webm".toList).isSuffixOf p then some (.file raw .webm)
  else if (ascii ".ogg".toList).isSuffixOf p then some (.file raw .ogg)
  else none

def isYouTube (host : JSString) : Bool := host = ascii "youtu.be".toList ∨ YT_HOSTS.any fun h => h = host

def isVimeo (host : JSString) : Bool := host = ascii "vimeo.com".toList ∨ host = ascii "player.vimeo.com".toList

def isHttp (u : URL) : Bool := u.protocol = ascii "http:".toList ∨ u.protocol = ascii "https:".toList

/-- What becomes of an input that the parser accepts. -/
def classifyURL (u : URL) (s : JSString) : MediaSource :=
  if !isHttp u then .none .unsupported
  else
    let host := hostOf u
    if isYouTube host then
      match extractYouTubeId u host with
      | some id => if id ≠ ascii "videoseries".toList ∧ YT_ID id then .youtube id else .none .unsupported
      | none => .none .unsupported
    else if isVimeo host then classifyVimeo u host
    else
      match byExtension u s with
      | some ext => ext
      | none => .file s .unknown

variable (absolute : List Char → Option URL)

/-- The input is `null` or `undefined`, or a string. -/
def classifyMediaSource (raw : Option JSString) : MediaSource :=
  let s := trim (raw.getD [])
  if s = [] then .none .empty
  else if YT_ID s then .youtube s
  else
    match newURL absolute s with
    | none => .none .unsupported
    | some u => classifyURL u s

def isAcceptableVideoUrl (raw : JSString) : Bool :=
  if raw.length = 0 ∨ raw.length > VIDEO_URL_MAX_LEN then false
  else if !VIDEO_URL_SHAPE raw && !YT_ID raw then false
  else
    match classifyMediaSource absolute (some raw) with
    | .none _ => false
    | _ => true

/-! ## What a mount relies on -/

/-- The input resolves on the origin of the base, to a path under `/media/`. -/
def UnderMedia (raw : JSString) : Prop :=
  ∃ u, newURL absolute raw = some u ∧ u.protocol = ascii "https:".toList ∧ u.hostname = ascii "relative.invalid".toList ∧
    ascii "/media/".toList <+: u.pathname

structure MountSafe (raw : JSString) : Prop where
  youtube : ∀ id, classifyMediaSource absolute (some raw) = .youtube id → YT_ID id = true
  vimeo : ∀ id hash, classifyMediaSource absolute (some raw) = .vimeo id hash →
    isDigits id = true ∧ ∀ h, hash = some h → isKey h = true
  fetched : ∀ url, (classifyMediaSource absolute (some raw) = .hls url ∨
      ∃ container, classifyMediaSource absolute (some raw) = .file url container) →
    url = trim raw ∧ ∃ u, newURL absolute url = some u ∧ isHttp u = true ∧ isYouTube (hostOf u) = false ∧
      isVimeo (hostOf u) = false
  admitted : isAcceptableVideoUrl absolute raw = true → absoluteShape raw = false → YT_ID raw = false →
    UnderMedia absolute raw

/-- The input resolves to a player URL of Vimeo with this `h`. -/
def PlayerKey (raw h : JSString) : Prop :=
  trim raw ≠ [] ∧ YT_ID (trim raw) = false ∧ ∃ u id rest, newURL absolute (trim raw) = some u ∧ isHttp u = true ∧
    hostOf u = ascii "player.vimeo.com".toList ∧ segmentsOf u = ascii "video".toList :: id :: rest ∧ isDigits id = true ∧
    u.getParam (ascii "h".toList) = some h

/-! ## What the classification can be -/

variable {absolute} {u : URL} {s raw : JSString}

/-- How a URL is classified. -/
inductive Classified (u : URL) (s : JSString) : MediaSource → Prop
  | refused : Classified u s (.none .unsupported)
  | youtube {id} (h : YT_ID id = true) : Classified u s (.youtube id)
  | vimeo {id hash} (hid : isDigits id = true) (hhash : ∀ h, hash = some h → isKey h = true) :
      Classified u s (.vimeo id hash)
  | player {id rest h} (http : isHttp u = true) (host : hostOf u = ascii "player.vimeo.com".toList)
      (segments : segmentsOf u = ascii "video".toList :: id :: rest) (hid : isDigits id = true)
      (param : u.getParam (ascii "h".toList) = some h) (given : h ≠ []) : Classified u s (.vimeo id (some h))
  | fetched {m} (http : isHttp u = true) (youtube : isYouTube (hostOf u) = false) (vimeo : isVimeo (hostOf u) = false)
      (media : m = .hls s ∨ ∃ container, m = .file s container) : Classified u s m

theorem classified_vimeo (http : isHttp u = true) : Classified u s (classifyVimeo u (hostOf u)) := by
  unfold classifyVimeo
  split
  · rename_i host
    split
    · rename_i first id rest segments
      split
      · rename_i hvideo
        obtain ⟨rfl, hid⟩ := hvideo
        split
        · rename_i h param
          split
          · rename_i hne
            exact .player http host segments hid param hne
          · exact .vimeo hid (by rintro _ ⟨⟩)
        · exact .vimeo hid (by rintro _ ⟨⟩)
      · exact .refused
    · exact .refused
  · split
    · split
      · rename_i hid
        split
        · split
          · rename_i hkey
            refine .vimeo hid fun h he => ?_
            obtain rfl := Option.some.inj he
            exact hkey
          · exact .vimeo hid (by rintro _ ⟨⟩)
        · exact .vimeo hid (by rintro _ ⟨⟩)
      · exact .refused
    · exact .refused

theorem byExtension_cases {m : MediaSource} (h : byExtension u s = some m) :
    m = .hls s ∨ ∃ container, m = .file s container := by
  unfold byExtension at h
  dsimp only at h
  split_ifs at h
  · exact Or.inl (Option.some.inj h).symm
  · exact Or.inr ⟨_, (Option.some.inj h).symm⟩
  · exact Or.inr ⟨_, (Option.some.inj h).symm⟩
  · exact Or.inr ⟨_, (Option.some.inj h).symm⟩

/-- **What a URL is classified as.** -/
theorem classified (u : URL) (s : JSString) : Classified u s (classifyURL u s) := by
  unfold classifyURL
  split
  · exact .refused
  · rename_i http
    replace http : isHttp u = true := by simpa using http
    dsimp only
    split
    · split
      · split
        · rename_i hid
          exact .youtube hid.2
        · exact .refused
      · exact .refused
    · rename_i youtube
      replace youtube : isYouTube (hostOf u) = false := by simpa using youtube
      split
      · exact classified_vimeo http
      · rename_i vimeo
        replace vimeo : isVimeo (hostOf u) = false := by simpa using vimeo
        split
        · rename_i hext
          exact .fetched http youtube vimeo (byExtension_cases hext)
        · exact .fetched http youtube vimeo (Or.inr ⟨_, rfl⟩)

/-- An input is empty, a bare id, refused by the parser, or classified by its URL. -/
theorem classify_cases (absolute : List Char → Option URL) (raw : JSString) :
    (∃ reason, classifyMediaSource absolute (some raw) = .none reason) ∨
      (classifyMediaSource absolute (some raw) = .youtube (trim raw) ∧ YT_ID (trim raw) = true) ∨
        ∃ u, newURL absolute (trim raw) = some u ∧
          Classified u (trim raw) (classifyMediaSource absolute (some raw)) ∧ trim raw ≠ [] ∧
          YT_ID (trim raw) = false := by
  unfold classifyMediaSource
  rw [Option.getD_some]
  by_cases hempty : trim raw = []
  · exact Or.inl ⟨_, if_pos hempty⟩
  · dsimp only
    rw [if_neg hempty]
    by_cases hid : YT_ID (trim raw) = true
    · exact Or.inr (Or.inl ⟨if_pos hid, hid⟩)
    · rw [if_neg hid]
      cases hu : newURL absolute (trim raw) with
      | none => exact Or.inl ⟨_, rfl⟩
      | some u => exact Or.inr (Or.inr ⟨u, rfl, classified u (trim raw), hempty, by simpa using hid⟩)

/-- The `h` of a player URL is taken as it is. -/
theorem classifyVimeo_player {id h : JSString} {rest : List JSString}
    (segments : segmentsOf u = ascii "video".toList :: id :: rest) (hid : isDigits id = true)
    (param : u.getParam (ascii "h".toList) = some h) (hne : h ≠ []) :
    classifyVimeo u (ascii "player.vimeo.com".toList) = .vimeo id (some h) := by
  unfold classifyVimeo
  rw [if_pos rfl, segments]
  dsimp only
  rw [if_pos ⟨rfl, hid⟩, param]
  exact if_pos hne

theorem classify_player {h : JSString} (hkey : PlayerKey absolute raw h) (hne : h ≠ []) :
    ∃ id, classifyMediaSource absolute (some raw) = .vimeo id (some h) := by
  obtain ⟨hempty, hbare, u, id, rest, hu, http, host, segments, hid, param⟩ := hkey
  have hyoutube : isYouTube (ascii "player.vimeo.com".toList) = false := by decide
  have hvimeo : isVimeo (ascii "player.vimeo.com".toList) = true := by decide
  have hclass : classifyURL u (trim raw) = .vimeo id (some h) := by
    unfold classifyURL
    rw [http, host]
    dsimp only
    rw [hyoutube, hvimeo]
    exact classifyVimeo_player segments hid param hne
  refine ⟨id, ?_⟩
  unfold classifyMediaSource
  rw [Option.getD_some]
  dsimp only
  rw [if_neg hempty, hbare, hu]
  exact hclass

/-! ## The paths under the base -/

theorem shape_cut {p : List Char} (h : shape p s = true) :
    ∃ t, s = ascii p ++ t ∧ t ≠ [] ∧ ∀ u ∈ t, isSpace u = false := by
  obtain ⟨hstart, hne, hall⟩ : (ascii p).isPrefixOf s = true ∧ s.drop p.length ≠ [] ∧
      (s.drop p.length).all (fun u => !isSpace u) = true := by simpa [shape] using h
  obtain ⟨t, rfl⟩ := List.isPrefixOf_iff_prefix.mp hstart
  have hdrop : (ascii p ++ t).drop p.length = t := List.drop_left' (by simp [ascii])
  rw [hdrop] at hne hall
  exact ⟨t, rfl, hne, by simpa using hall⟩

/-- What is known of a string that has the shape of a path under `/media/`. -/
structure MediaPath (absolute : List Char → Option URL) (raw : JSString) : Prop where
  trimmed : trim raw = raw
  nonempty : raw ≠ []
  bare : YT_ID raw = false
  remote : absoluteShape raw = false
  resolved : newURL absolute raw = some (relative (inputOf raw))

/-- The two shapes of a path under `/media/`. -/
theorem mediaPath_of_shape {p : List Char} (hp : p = "/media/".toList ∨ p = "media/".toList) (h : shape p raw = true) :
    MediaPath absolute raw := by
  obtain ⟨t, rfl, -, hspace⟩ := shape_cut h
  have hplain : ∀ c ∈ p, Plain c := by
    have hall : p.all (fun c => Plain c) = true := by rcases hp with rfl | rfl <;> rfl
    exact fun c hc => of_decide_eq_true (List.all_eq_true.mp hall c hc)
  have hfirst : ∀ u ∈ ascii p, isSpace u = false := by
    have hall : (ascii p).all (fun u => isSpace u = false) = true := by rcases hp with rfl | rfl <;> rfl
    exact fun u hu => of_decide_eq_true (List.all_eq_true.mp hall u hu)
  have hslash : 0x2f ∈ ascii p := by
    rcases hp with rfl | rfl <;> decide
  obtain ⟨t', hinput⟩ := inputOf_plain hplain (by rcases hp with rfl | rfl <;> decide) t
  constructor
  · refine trim_eq_self fun u hu => ?_
    rcases List.mem_append.mp hu with hu | hu
    · exact hfirst u hu
    · exact hspace u hu
  · intro he
    rw [(List.append_eq_nil_iff.mp he).1] at hslash
    cases hslash
  · by_contra hid
    have hall : (ascii p ++ t).all (fun u => isAlphanumeric u ∨ u = 0x5f ∨ u = 0x2d) = true := by
      have hboth : YT_ID (ascii p ++ t) = true := by simpa using hid
      unfold YT_ID at hboth
      exact (of_decide_eq_true hboth).2
    have hone := List.all_eq_true.mp hall 0x2f (List.mem_append_left t hslash)
    exact absurd hone (by decide)
  · rcases hp with rfl | rfl <;> rfl
  · unfold newURL
    rw [hinput]
    rcases hp with rfl | rfl <;> rfl

theorem mediaPath (h : mediaShape raw = true) : MediaPath absolute raw := by
  unfold mediaShape at h
  rcases of_decide_eq_true h with h | h
  · exact mediaPath_of_shape (Or.inl rfl) h
  · exact mediaPath_of_shape (Or.inr rfl) h

/-- A path under the base is let in, if it is not too long. -/
theorem MediaPath.admitted (h : MediaPath absolute raw) (hshape : mediaShape raw = true)
    (hlen : raw.length ≤ VIDEO_URL_MAX_LEN) : isAcceptableVideoUrl absolute raw = true := by
  have hhost : hostOf (relative (inputOf raw)) = ascii "relative.invalid".toList := by
    have htake : ∀ u : URL, u.hostname = ascii "relative.invalid".toList →
        hostOf u = ascii "relative.invalid".toList := by
      intro u hu
      unfold hostOf
      rw [hu]
      decide
    exact htake _ rfl
  have hfetched : ∃ url, classifyMediaSource absolute (some raw) = .hls url ∨
      ∃ container, classifyMediaSource absolute (some raw) = .file url container := by
    have hhttp : isHttp (relative (inputOf raw)) = true := by
      have hprotocol : ∀ u : URL, u.protocol = ascii "https:".toList → isHttp u = true := by
        intro u hu
        unfold isHttp
        rw [hu]
        decide
      exact hprotocol _ rfl
    have hyoutube : isYouTube (ascii "relative.invalid".toList) = false := by decide
    have hvimeo : isVimeo (ascii "relative.invalid".toList) = false := by decide
    have hclass : classifyMediaSource absolute (some raw) = classifyURL (relative (inputOf raw)) raw := by
      unfold classifyMediaSource
      rw [Option.getD_some, h.trimmed]
      dsimp only
      rw [if_neg h.nonempty, h.bare, h.resolved]
      rfl
    rw [hclass]
    unfold classifyURL
    rw [hhttp, hhost]
    dsimp only
    rw [hyoutube, hvimeo]
    cases hext : byExtension (relative (inputOf raw)) raw with
    | none => exact ⟨raw, Or.inr ⟨_, rfl⟩⟩
    | some m => exact ⟨raw, byExtension_cases hext⟩
  have hnonempty : raw.length ≠ 0 := fun he => h.nonempty (List.length_eq_zero_iff.mp he)
  unfold isAcceptableVideoUrl
  rw [if_neg (by omega), if_neg (by simp [VIDEO_URL_SHAPE, hshape])]
  obtain ⟨url, he | ⟨container, he⟩⟩ := hfetched
  · rw [he]
  · rw [he]

theorem admitted_cases (h : isAcceptableVideoUrl absolute raw = true) (hremote : absoluteShape raw = false)
    (hbare : YT_ID raw = false) : raw.length ≤ VIDEO_URL_MAX_LEN ∧ mediaShape raw = true := by
  unfold isAcceptableVideoUrl at h
  split at h
  · cases h
  · rename_i hlen
    split at h
    · cases h
    · rename_i hshape
      refine ⟨by omega, ?_⟩
      simpa [VIDEO_URL_SHAPE, hremote, hbare] using hshape

theorem MediaPath.under_iff (h : MediaPath absolute raw) :
    UnderMedia absolute raw ↔ StaysInMedia (pathOf (inputOf raw)) := by
  rw [← under_media_iff]
  constructor
  · rintro ⟨u, hu, -, -, hpath⟩
    rw [h.resolved] at hu
    obtain rfl := Option.some.inj hu
    exact hpath
  · exact fun hpath => ⟨_, h.resolved, rfl, rfl, hpath⟩

/-- A parser that knows one URL. -/
def playerURL (cs : List Char) : Option URL :=
  if cs = "https://player.vimeo.com/video/1?h=a%26b".toList then
    some ⟨ascii "https:".toList, ascii "player.vimeo.com".toList, ascii "/video/1".toList, ascii "?h=a%26b".toList⟩
  else none

/-- A path that leaves `/media/` is let in, and a player URL of Vimeo is classified with a hash that is no key. -/
theorem mount_unsafe :
    ¬MountSafe playerURL (ascii "/media/../x".toList) ∧
      ¬MountSafe playerURL (ascii "https://player.vimeo.com/video/1?h=a%26b".toList) := by
  constructor
  · intro h
    have hu : newURL playerURL (ascii "/media/../x".toList) =
        some ⟨ascii "https:".toList, ascii "relative.invalid".toList, ascii "/x".toList, []⟩ := by decide
    obtain ⟨u, hu', -, -, hpath⟩ := h.admitted (by decide) (by decide) (by decide)
    obtain rfl := Option.some.inj (hu.symm.trans hu')
    exact absurd hpath (by decide)
  · intro h
    have hclass : classifyMediaSource playerURL (some (ascii "https://player.vimeo.com/video/1?h=a%26b".toList)) =
        .vimeo (ascii "1".toList) (some (ascii "a&b".toList)) := by decide
    exact absurd ((h.vimeo _ _ hclass).2 _ rfl) (by decide)

/-- **Classified media is mount-safe** exactly for the inputs that are neither a player URL of Vimeo whose `h` is no key,
nor a path under `/media/` that leaves it. -/
theorem mount_safe_iff (absolute : List Char → Option URL) (raw : JSString) :
    MountSafe absolute raw ↔
      (∀ h, PlayerKey absolute raw h → h = [] ∨ isKey h = true) ∧
        (raw.length ≤ VIDEO_URL_MAX_LEN → mediaShape raw = true → StaysInMedia (pathOf (inputOf raw))) := by
  constructor
  · intro hsafe
    refine ⟨fun h hkey => ?_, fun hlen hshape => ?_⟩
    · by_cases hne : h = []
      · exact Or.inl hne
      · obtain ⟨id, hclass⟩ := classify_player hkey hne
        exact Or.inr ((hsafe.vimeo id _ hclass).2 h rfl)
    · have hpath : MediaPath absolute raw := mediaPath hshape
      exact hpath.under_iff.mp (hsafe.admitted (hpath.admitted hshape hlen) hpath.remote hpath.bare)
  · rintro ⟨hkeys, hstays⟩
    have hadmitted : isAcceptableVideoUrl absolute raw = true → absoluteShape raw = false → YT_ID raw = false →
        UnderMedia absolute raw := by
      intro hacc hremote hbare
      obtain ⟨hlen, hshape⟩ := admitted_cases hacc hremote hbare
      exact (mediaPath hshape).under_iff.mpr (hstays hlen hshape)
    rcases classify_cases absolute raw with ⟨reason, hclass⟩ | ⟨hclass, hid⟩ | ⟨u, hu, hclass, hempty, hbare⟩
    · constructor
      · intro id he
        rw [hclass] at he
        cases he
      · intro id hash he
        rw [hclass] at he
        cases he
      · intro url he
        rw [hclass] at he
        rcases he with he | ⟨container, he⟩ <;> cases he
      · exact hadmitted
    · constructor
      · intro id he
        rw [hclass] at he
        obtain rfl := MediaSource.youtube.inj he
        exact hid
      · intro id hash he
        rw [hclass] at he
        cases he
      · intro url he
        rw [hclass] at he
        rcases he with he | ⟨container, he⟩ <;> cases he
      · exact hadmitted
    · constructor
      · intro id he
        rw [he] at hclass
        cases hclass with
        | youtube h => exact h
        | fetched http youtube vimeo media => rcases media with h | ⟨container, h⟩ <;> cases h
      · intro id hash he
        rw [he] at hclass
        cases hclass with
        | vimeo hid hhash => exact ⟨hid, hhash⟩
        | player http host segments hid param hne =>
          refine ⟨hid, fun h heq => ?_⟩
          obtain rfl := Option.some.inj heq
          exact (hkeys _ ⟨hempty, hbare, u, id, _, hu, http, host, segments, hid, param⟩).resolve_left hne
        | fetched http youtube vimeo media => rcases media with h | ⟨container, h⟩ <;> cases h
      · intro url he
        have hfetched : ∀ m, Classified u (trim raw) m → (m = .hls url ∨ ∃ container, m = .file url container) →
            url = trim raw ∧ isHttp u = true ∧ isYouTube (hostOf u) = false ∧ isVimeo (hostOf u) = false := by
          intro m hm hurl
          cases hm with
          | fetched http youtube vimeo media =>
            refine ⟨?_, http, youtube, vimeo⟩
            rcases media with rfl | ⟨container, rfl⟩ <;> rcases hurl with h | ⟨container', h⟩ <;> cases h <;> rfl
          | _ => rcases hurl with h | ⟨container, h⟩ <;> cases h
        obtain ⟨rfl, hrest⟩ := hfetched _ hclass he
        exact ⟨rfl, u, hu, hrest⟩
      · exact hadmitted

end Media
end WatchParty
