import Mathlib.Data.List.TakeWhile
import Sone.Doc.Text

/-!
# Video links

`readVideoLink` (`core/src/video/links.ts`) recognises the address of a video and builds two
addresses from it, one for a frame and one for a person. How texts are read as addresses and
written is a parameter (`Browser`).

An address is read in a canonical way where what was built is on its provider's host and reads as
the same video again (`IsCanonical`). `isCanonical_iff`: that is so for everything but Vimeo and
PeerTube. The frames of both are on paths that are not recognised.
-/

namespace Sone.VideoLinks

open List Option

/-- `URL`, in what is read of it. -/
structure Url where
  protocol : List Char
  hostname : List Char
  port : List Char
  pathname : List Char
  searchParams : List (List Char × List Char)
  deriving DecidableEq

/-- **Reading and writing addresses**, as the platform does. -/
structure Browser where
  /-- `new URL(raw.trim())` -/
  read : List Char → Option Url
  /-- `url.toString()` -/
  write : Url → List Char

inductive VideoProvider
  | youtube
  | vimeo
  | peertube
  deriving DecidableEq

structure EmbeddedVideo where
  provider : VideoProvider
  embedUrl : List Char
  pageUrl : List Char
  deriving DecidableEq

/-- `YOUTUBE_HOSTS` -/
def youtubeHosts : List (List Char) :=
  ["youtube.com", "www.youtube.com", "m.youtube.com", "music.youtube.com", "youtube-nocookie.com",
    "www.youtube-nocookie.com", "youtu.be"].map String.toList

/-- `VIMEO_HOSTS` -/
def vimeoHosts : List (List Char) :=
  ["vimeo.com", "www.vimeo.com", "player.vimeo.com"].map String.toList

/-- `[\w-]` -/
def isIdChar (c : Char) : Bool := c.isAlphanum || c = '_' || c = '-'

/-- `YOUTUBE_ID` -/
def isYoutubeId (id : List Char) : Bool := id.length = 11 && id.all isIdChar

/-- `DIGITS` -/
def isDigits (id : List Char) : Bool := !id.isEmpty && id.all Char.isDigit

/-- `PEERTUBE_ID` -/
def isPeertubeId (id : List Char) : Bool :=
  6 ≤ id.length && id.length ≤ 40 && id.all isIdChar

/-- A number before a unit, and what is behind the unit. -/
def amountOf (unit : Char) (raw : List Char) : ℕ × List Char :=
  let digits := raw.takeWhile Char.isDigit
  let rest := raw.dropWhile Char.isDigit
  if digits ≠ [] ∧ rest.head? = some unit then (Nat.ofDigitChars 10 digits 0, rest.tail)
  else (0, raw)

/-- `startSeconds`, in whole numbers as they are. -/
def startSeconds (url : Url) : Option ℕ :=
  ((url.searchParams.lookup ['t']).or (url.searchParams.lookup "start".toList)).bind fun raw =>
    let hours := amountOf 'h' (JsString.trim (String.ofList raw)).toList
    let minutes := amountOf 'm' hours.2
    let seconds := minutes.2.takeWhile Char.isDigit
    let rest := minutes.2.dropWhile Char.isDigit
    let total := hours.1 * 3600 + minutes.1 * 60 + Nat.ofDigitChars 10 seconds 0
    if (rest = [] ∨ rest = ['s'] ∧ seconds ≠ []) ∧ 0 < total then some total else none

/-- `url.hostname.toLowerCase()`: the name of a host is in ASCII. -/
def hostOf (url : Url) : List Char := url.hostname.map Char.toLower

/-- `path.split('/')[0]` -/
def firstSegment (path : List Char) : List Char := path.takeWhile (· ≠ '/')

def youtubeId (url : Url) : Option (List Char) :=
  let path := url.pathname.dropWhile (· = '/')
  if hostOf url = "youtu.be".toList then some (firstSegment path)
  else (url.searchParams.lookup ['v']).or
    (if firstSegment path ∈ ["embed", "shorts", "live", "v"].map String.toList ∧ '/' ∈ path then
      some (firstSegment (path.dropWhile (· ≠ '/')).tail) else none)

def vimeoId (url : Url) : List Char := firstSegment (url.pathname.dropWhile (· = '/'))

/-- `/^\/(?:w|videos\/watch)\/([\w-]{6,40})\/?$/` -/
def peertubeId (pathname : List Char) : Option (List Char) :=
  (["/w/", "/videos/watch/"].map String.toList).findSome? fun start =>
    if start.isPrefixOf pathname then
      let rest := pathname.drop start.length
      let id := rest.takeWhile isIdChar
      if isPeertubeId id ∧ rest.dropWhile isIdChar ∈ [[], ['/']] then some id else none
    else none

def videoOf (url : Url) : Option (VideoProvider × List Char) :=
  if url.protocol ≠ "https:".toList then none
  else if hostOf url ∈ youtubeHosts then
    ((youtubeId url).filter isYoutubeId).map (.youtube, ·)
  else if hostOf url ∈ vimeoHosts then
    if isDigits (vimeoId url) then some (.vimeo, vimeoId url) else none
  else (peertubeId url.pathname).map (.peertube, ·)

/-- `embed` -/
def embedOf (host id : List Char) (start : Option ℕ) : VideoProvider → Url
  | .youtube => {
      protocol := "https:".toList
      hostname := "www.youtube-nocookie.com".toList
      port := []
      pathname := "/embed/".toList ++ id
      searchParams := (start.map fun n => ("start".toList, Nat.toDigits 10 n)).toList }
  | .vimeo => {
      protocol := "https:".toList
      hostname := "player.vimeo.com".toList
      port := []
      pathname := "/video/".toList ++ id
      searchParams := ("dnt".toList, ['1']) ::
        (start.map fun n => (['t'], Nat.toDigits 10 n ++ ['s'])).toList }
  | .peertube => {
      protocol := "https:".toList
      hostname := host
      port := []
      pathname := "/videos/embed/".toList ++ id
      searchParams := (start.map fun n => ("start".toList, Nat.toDigits 10 n ++ ['s'])).toList }

/-- The address that `pageUrl` is the text of. -/
def pageOf (host id : List Char) : VideoProvider → Url
  | .youtube => ⟨"https:".toList, "www.youtube.com".toList, [], "/watch".toList, [(['v'], id)]⟩
  | .vimeo => ⟨"https:".toList, "vimeo.com".toList, [], '/' :: id, []⟩
  | .peertube => ⟨"https:".toList, host, [], "/w/".toList ++ id, []⟩

namespace Browser

variable (b : Browser)

/-- What is built for a video that was recognised in an address. -/
def videoAt (url : Url) (video : VideoProvider × List Char) : EmbeddedVideo where
  provider := video.1
  embedUrl := b.write (embedOf (hostOf url) video.2 (startSeconds url) video.1)
  pageUrl := b.write (pageOf (hostOf url) video.2 video.1)

def readVideoLink (raw : List Char) : Option EmbeddedVideo :=
  (b.read raw).bind fun url => (videoOf url).map (b.videoAt url)

/-- Two readings **are of one video**: their addresses are the same, start time aside. -/
def SameVideo (video again : EmbeddedVideo) : Prop :=
  again.provider = video.provider ∧ again.pageUrl = video.pageUrl ∧
    ∃ host id start start', video.embedUrl = b.write (embedOf host id start video.provider) ∧
      again.embedUrl = b.write (embedOf host id start' video.provider)

/-- An address goes into a **frame** where it is on the privacy host of YouTube, on Vimeo's player
or on the host and the port that were given, and has nothing but an id in its path. -/
def IsFrame (url embed : Url) : Prop :=
  embed.protocol = "https:".toList ∧
    (embed.hostname, embed.port) ∈ [("www.youtube-nocookie.com".toList, []),
      ("player.vimeo.com".toList, []), (hostOf url, url.port)] ∧
    ∃ id, (isYoutubeId id ∨ isDigits id ∨ isPeertubeId id) ∧ embed.pathname ∈
      ["/embed/".toList ++ id, "/video/".toList ++ id, "/videos/embed/".toList ++ id]

/-- **A text is read canonically**: a video that is made of it has a frame, and both its addresses
are read as the same video. -/
def IsCanonical (raw : List Char) : Prop :=
  ∀ url video, b.read raw = some url → b.readVideoLink raw = some video →
    (∃ embed, b.read video.embedUrl = some embed ∧ IsFrame url embed) ∧
      ∀ address ∈ [video.pageUrl, video.embedUrl], ∃ again, b.readVideoLink address = some again ∧
        b.SameVideo video again

end Browser

/-- The address is of a video, but not of one on YouTube. -/
def IsElsewhere (url : Url) : Prop :=
  url.protocol = "https:".toList ∧ hostOf url ∉ youtubeHosts ∧
    if hostOf url ∈ vimeoHosts then isDigits (vimeoId url) = true
    else (peertubeId url.pathname).isSome = true

/-! ### Reading what was built -/

variable {url : Url} {id : List Char}

theorem firstSegment_append {path rest : List Char} (h : '/' ∉ path) :
    firstSegment (path ++ '/' :: rest) = path := by
  rw [firstSegment, takeWhile_append_of_pos fun c hc =>
    decide_eq_true (ne_of_mem_of_not_mem hc h)]
  simp

theorem firstSegment_eq {path : List Char} (h : path.all isIdChar = true) :
    firstSegment path = path := by
  refine takeWhile_eq_self_iff.mpr fun c hc => decide_eq_true ?_
  rintro rfl
  exact absurd (List.all_eq_true.mp h _ hc) (by decide)

theorem videoOf_eq_youtube_iff : videoOf url = some (.youtube, id) ↔
    url.protocol = "https:".toList ∧ hostOf url ∈ youtubeHosts ∧ youtubeId url = some id ∧
      isYoutubeId id = true := by
  rw [videoOf]
  split_ifs with hprotocol hyoutube hvimeo hdigits <;>
    simp_all [filter_eq_some_iff]

theorem isElsewhere_iff : IsElsewhere url ↔
    ∃ provider id, videoOf url = some (provider, id) ∧ provider ≠ .youtube := by
  rw [IsElsewhere, videoOf]
  by_cases hprotocol : url.protocol = "https:".toList
  · by_cases hyoutube : hostOf url ∈ youtubeHosts
    · simp_all
    · by_cases hvimeo : hostOf url ∈ vimeoHosts <;> by_cases hdigits : isDigits (vimeoId url) <;>
        simp_all [isSome_iff_exists]
  · simp_all

theorem videoOf_page (host : List Char) (h : isYoutubeId id = true) :
    videoOf (pageOf host id .youtube) = some (.youtube, id) := by
  have hhost : hostOf (pageOf host id .youtube) = "www.youtube.com".toList :=
    (by decide : "www.youtube.com".toList.map Char.toLower = "www.youtube.com".toList)
  refine videoOf_eq_youtube_iff.mpr ⟨rfl, hhost ▸ by decide, ?_, h⟩
  rw [youtubeId, hhost, if_neg (by decide)]
  simp [pageOf]

theorem videoOf_embed (host : List Char) (start : Option ℕ) (h : isYoutubeId id = true) :
    videoOf (embedOf host id start .youtube) = some (.youtube, id) := by
  have hhost : hostOf (embedOf host id start .youtube) = "www.youtube-nocookie.com".toList :=
    (by decide : "www.youtube-nocookie.com".toList.map Char.toLower =
      "www.youtube-nocookie.com".toList)
  have hpath : (embedOf host id start .youtube).pathname.dropWhile (· = '/') =
      "embed".toList ++ '/' :: id := rfl
  have hafter : ("embed".toList ++ '/' :: id).dropWhile (· ≠ '/') = '/' :: id := rfl
  have hlookup : (embedOf host id start .youtube).searchParams.lookup ['v'] = none := by
    cases start <;> rfl
  refine videoOf_eq_youtube_iff.mpr ⟨rfl, hhost ▸ by decide, ?_, h⟩
  rw [youtubeId, hhost, if_neg (by decide), hlookup, hpath, hafter, firstSegment_append (by decide),
    tail_cons, firstSegment_eq (Bool.and_eq_true_iff.mp h).2, if_pos ⟨by decide, by simp⟩]
  rfl

theorem videoOf_embed_eq_none (host id : List Char) (start : Option ℕ) {provider : VideoProvider}
    (h : provider ≠ .youtube) : videoOf (embedOf host id start provider) = none := by
  rcases provider with _ | _ | _
  · exact absurd rfl h
  · have hhost : hostOf (embedOf host id start .vimeo) = "player.vimeo.com".toList :=
      (by decide : "player.vimeo.com".toList.map Char.toLower = "player.vimeo.com".toList)
    have hid : vimeoId (embedOf host id start .vimeo) = "video".toList :=
      @firstSegment_append "video".toList id (by decide)
    have hprotocol : (embedOf host id start .vimeo).protocol = "https:".toList := rfl
    rw [videoOf, hhost, hid, if_neg (not_not.mpr hprotocol), if_neg (by decide),
      if_pos (by decide)]
    rfl
  · have hpath : (embedOf host id start .peertube).pathname.dropWhile (· = '/') =
        "videos".toList ++ '/' :: ("embed/".toList ++ id) := rfl
    have hsegment : firstSegment ("videos".toList ++ '/' :: ("embed/".toList ++ id)) =
        "videos".toList := firstSegment_append (by decide)
    have hlookup : (embedOf host id start .peertube).searchParams.lookup ['v'] = none := by
      cases start <;> rfl
    have hyoutube : (youtubeId (embedOf host id start .peertube)).filter isYoutubeId = none := by
      rw [youtubeId, hpath, hsegment, hlookup]
      split_ifs with hshort hshape
      · rfl
      · exact absurd hshape.1 (by decide)
      · rfl
    have hvimeo : vimeoId (embedOf host id start .peertube) = "videos".toList := by
      rw [vimeoId, hpath, hsegment]
    have hpeertube : peertubeId (embedOf host id start .peertube).pathname = none := rfl
    rw [videoOf, hyoutube, hvimeo, hpeertube]
    split_ifs with _ _ _ hdigits
    · rfl
    · rfl
    · exact absurd hdigits (by decide)
    · rfl
    · rfl

/-- **What is read canonically**: all but the videos that are not on YouTube. What the platform
builds for the text is read as it was built. -/
theorem isCanonical_iff (b : Browser) (raw : List Char)
    (hread : ∀ url provider id, b.read raw = some url → videoOf url = some (provider, id) →
      ∀ built ∈ [pageOf (hostOf url) id provider,
        embedOf (hostOf url) id (startSeconds url) provider], b.read (b.write built) = some built) :
    b.IsCanonical raw ↔ ∀ url, b.read raw = some url → ¬IsElsewhere url := by
  constructor
  · intro h url hurl helsewhere
    obtain ⟨provider, id, hvideo, hprovider⟩ := isElsewhere_iff.mp helsewhere
    have hbuilt := hread url provider id hurl hvideo
    have hlink : b.readVideoLink raw = some (b.videoAt url (provider, id)) := by
      rw [Browser.readVideoLink, hurl, bind_some, hvideo, map_some]
    obtain ⟨again, hagain, -⟩ := (h url _ hurl hlink).2 _ (mem_cons_of_mem _ (mem_singleton_self _))
    rw [Browser.readVideoLink, Browser.videoAt, hbuilt _ (by simp), bind_some,
      videoOf_embed_eq_none _ _ _ hprovider] at hagain
    cases hagain
  · intro h url video hurl hlink
    rw [Browser.readVideoLink, hurl, bind_some] at hlink
    obtain ⟨⟨provider, id⟩, hvideo, rfl⟩ := map_eq_some_iff.mp hlink
    have hbuilt := hread url provider id hurl hvideo
    obtain rfl : provider = .youtube := by
      by_contra hprovider
      exact h url hurl (isElsewhere_iff.mpr ⟨provider, id, hvideo, hprovider⟩)
    obtain ⟨-, -, -, hid⟩ := videoOf_eq_youtube_iff.mp hvideo
    have hembed := hbuilt _ (mem_cons_of_mem _ (mem_singleton_self _))
    have hpage := hbuilt _ mem_cons_self
    refine ⟨⟨_, hembed, rfl, mem_cons_self, id, .inl hid, mem_cons_self⟩, fun address hmem => ?_⟩
    rcases mem_cons.mp hmem with rfl | hmem
    · refine ⟨b.videoAt (pageOf (hostOf url) id .youtube) (.youtube, id), ?_, rfl, rfl, hostOf url,
        id, _, _, rfl, rfl⟩
      rw [Browser.readVideoLink, Browser.videoAt, hpage, bind_some, videoOf_page _ hid,
        map_some]
    · obtain rfl := mem_singleton.mp hmem
      refine ⟨b.videoAt (embedOf (hostOf url) id (startSeconds url) .youtube) (.youtube, id), ?_,
        rfl, rfl, hostOf url, id, _, _, rfl, rfl⟩
      rw [Browser.readVideoLink, Browser.videoAt, hembed, bind_some, videoOf_embed _ _ hid,
        map_some]

def addresses : List (List Char × Url) := [
  ("https://youtu.be/dQw4w9WgXcQ?t=90".toList,
    ⟨"https:".toList, "youtu.be".toList, [], "/dQw4w9WgXcQ".toList, [(['t'], "90".toList)]⟩),
  ("https://www.youtube.com/watch?v=dQw4w9WgXcQ".toList,
    pageOf [] "dQw4w9WgXcQ".toList .youtube),
  ("https://www.youtube-nocookie.com/embed/dQw4w9WgXcQ?start=90".toList,
    embedOf [] "dQw4w9WgXcQ".toList (some 90) .youtube),
  ("https://vimeo.com/76979871".toList, pageOf [] "76979871".toList .vimeo),
  ("https://player.vimeo.com/video/76979871?dnt=1".toList,
    embedOf [] "76979871".toList none .vimeo)]

def sample : Browser where
  read raw := addresses.lookup raw
  write url := ((addresses.find? fun entry => entry.2 = url).map Prod.fst).getD []

theorem isCanonical_short : sample.IsCanonical "https://youtu.be/dQw4w9WgXcQ?t=90".toList := by
  have hurl : sample.read "https://youtu.be/dQw4w9WgXcQ?t=90".toList = some ⟨"https:".toList,
      "youtu.be".toList, [], "/dQw4w9WgXcQ".toList, [(['t'], "90".toList)]⟩ := by
    decide
  refine (isCanonical_iff sample _ fun url provider id hread hvideo => ?_).mpr fun url hread => ?_
  · obtain rfl := Option.some.inj (hurl.symm.trans hread)
    obtain ⟨rfl, rfl⟩ := Prod.mk.inj (Option.some.inj
      ((by decide : _ = some (VideoProvider.youtube, "dQw4w9WgXcQ".toList)).symm.trans hvideo))
    decide
  · obtain rfl := Option.some.inj (hurl.symm.trans hread)
    exact fun h => h.2.1 (by decide)

/-- **The frame of Vimeo is not read back.** -/
theorem not_isCanonical : ¬∀ (b : Browser) (raw : List Char),
    (∀ url provider id, b.read raw = some url → videoOf url = some (provider, id) →
      ∀ built ∈ [pageOf (hostOf url) id provider,
        embedOf (hostOf url) id (startSeconds url) provider], b.read (b.write built) = some built) →
      b.IsCanonical raw := by
  intro h
  have hurl : sample.read "https://vimeo.com/76979871".toList =
      some (pageOf [] "76979871".toList .vimeo) := by
    decide
  have hcanonical := h sample _ fun url provider id hread hvideo => by
    obtain rfl := Option.some.inj (hurl.symm.trans hread)
    obtain ⟨rfl, rfl⟩ := Prod.mk.inj (Option.some.inj
      ((by decide : _ = some (VideoProvider.vimeo, "76979871".toList)).symm.trans hvideo))
    decide
  have hvideo : sample.readVideoLink "https://vimeo.com/76979871".toList = some
      ⟨.vimeo, "https://player.vimeo.com/video/76979871?dnt=1".toList,
        "https://vimeo.com/76979871".toList⟩ := by
    decide
  obtain ⟨again, hagain, -⟩ := (hcanonical _ _ hurl hvideo).2
    "https://player.vimeo.com/video/76979871?dnt=1".toList (by decide)
  rw [(by decide : sample.readVideoLink
    "https://player.vimeo.com/video/76979871?dnt=1".toList = none)] at hagain
  cases hagain

end Sone.VideoLinks
