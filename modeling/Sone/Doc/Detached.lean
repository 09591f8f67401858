import Sone.Doc.Tolerance

/-!
# Threads whose text is gone

A thread is about a range of text, a canvas item, a place in a PDF, or nothing but the page. Where
its text is gone it is detached: `isDetached` (`core/doc/comments.ts`) says so for the panel, and
`readDocument` writes a flag for the list of open threads (`http/pages.ts`).

The flag is set wherever a thread has no range, whatever it is about. `agree_readThreadRow_iff` says
when the two are the same and mean what they say: where every thread is about text, or its ends are
in two places.
-/

namespace Sone

open Option List

namespace Comments

def isDetached (thread : CommentThread) : Bool :=
  thread.item = none && thread.place = none && thread.range = none

/-- `open` of `useComments` -/
def isOpen (thread : CommentThread) : Bool := !thread.resolved && !isDetached thread

/-- What `?state=` asks for. -/
inductive ListState where
  | «open»
  | resolved
  | detached
  deriving DecidableEq, Repr

def isListed (state : ListState) (row : ReadThread) : Bool :=
  match state with
  | .resolved => row.resolved
  | .detached => !row.resolved && row.detached
  | .open => !row.resolved && !row.detached

inductive ThreadAnchor where
  | item
  | place
  | text
  | page
  deriving DecidableEq, Repr

def anchorOf (thread : CommentThread) : ThreadAnchor :=
  if thread.item ≠ none then .item
  else if thread.place ≠ none then .place
  else if thread.«from» ≠ [] ∨ thread.to ≠ [] then .text
  else .page

/-- **The text is gone**: the thread is about text, and that resolves no more. -/
def IsTextGone (thread : CommentThread) : Prop := anchorOf thread = .text ∧ thread.range = none

/-- **The flag is the client's answer**, decides the list of open threads as that does, and says of
text that it is gone. -/
structure Agree (row : ReadThread) (thread : CommentThread) : Prop where
  flag : row.detached = isDetached thread
  listed : isListed .open row = isOpen thread
  gone : isDetached thread = true ↔ IsTextGone thread

structure IsAboutText (entry : YMap ThreadValue) : Prop where
  item : ((threadPlainAt entry ThreadKeys.item).bind JsValue.string?).filter (· ≠ "") = none
  place : (placeAt entry).bind readPlace = none
  ends : bytesAt entry ThreadKeys.«from» ≠ [] ∨ bytesAt entry ThreadKeys.to ≠ []

/-- The ends of a stored thread are in two places. -/
def Resolves (position : List UInt8 → Option (Option ℕ)) (entry : YMap ThreadValue) : Prop :=
  ∃ start stop, resolve position (bytesAt entry ThreadKeys.«from») = some (some start) ∧
    resolve position (bytesAt entry ThreadKeys.to) = some (some stop) ∧ start ≠ stop

variable {js : Js} {position : List UInt8 → Option (Option ℕ)} {id : String}
  {entry : YMap ThreadValue} {thread : CommentThread}

theorem rangeOf_eq_none_iff {start stop : Option ℕ} :
    rangeOf start stop = none ↔ ¬∃ m n, start = some m ∧ stop = some n ∧ m ≠ n := by
  cases start with
  | none => simp [rangeOf]
  | some m =>
    cases stop with
    | none => simp [rangeOf]
    | some n => simp [rangeOf]

theorem spec_readThread (h : readThread position id entry = some thread) :
    thread.item = ((threadPlainAt entry ThreadKeys.item).bind JsValue.string?).filter (· ≠ "") ∧
      thread.place = (placeAt entry).bind readPlace ∧
      thread.«from» = bytesAt entry ThreadKeys.«from» ∧
      thread.to = bytesAt entry ThreadKeys.to ∧
      (thread.range = none ↔ ¬Resolves position entry) := by
  rw [readThread] at h
  obtain ⟨start, hstart, h⟩ := bind_eq_some_iff.mp h
  obtain ⟨stop, hstop, h⟩ := bind_eq_some_iff.mp h
  obtain rfl := some.inj h
  refine ⟨rfl, rfl, rfl, rfl, ?_⟩
  rw [Resolves, hstart, hstop, rangeOf_eq_none_iff]
  simp only [Option.some.injEq]

/-- **The flag of a thread** is right where it is about text, or has a range. -/
theorem agree_readThreadRow_iff (h : readThread position id entry = some thread) :
    Agree (PageDocument.readThreadRow thread) thread ↔
      IsAboutText entry ∨ Resolves position entry := by
  obtain ⟨hitem, hplace, hfrom, hto, hrange⟩ := spec_readThread h
  have hflag : (PageDocument.readThreadRow thread).detached = decide (thread.range = none) := rfl
  have habout : IsAboutText entry ↔ anchorOf thread = .text := by
    have hfields : IsAboutText entry ↔ thread.item = none ∧ thread.place = none ∧
        (thread.«from» ≠ [] ∨ thread.to ≠ []) := by
      rw [hitem, hplace, hfrom, hto]
      exact ⟨fun h => ⟨h.item, h.place, h.ends⟩, fun ⟨hi, hp, he⟩ => ⟨hi, hp, he⟩⟩
    rw [hfields, anchorOf]
    split_ifs with hi hp he
    · simp [hi]
    · simp [hp]
    · simpa [not_not.mp hi, not_not.mp hp] using he
    · simpa using fun _ _ => not_or.mp he
  rw [habout]
  by_cases hgone : thread.range = none
  · -- without a range the flag is set, and the thread has to be about text
    have hresolves : ¬Resolves position entry := hrange.mp hgone
    rw [or_iff_left hresolves]
    constructor
    · intro hagree
      refine (hagree.gone.mp ?_).1
      rw [← hagree.flag, hflag, hgone]
      rfl
    · intro htext
      have hdetached : isDetached thread = true := by
        have hfields := habout.mpr htext
        rw [isDetached, hitem, hplace, hfields.item, hfields.place, hgone]
        rfl
      have hsame : (PageDocument.readThreadRow thread).detached = isDetached thread := by
        rw [hflag, hgone, hdetached]
        rfl
      exact ⟨hsame, by rw [isListed, isOpen, hsame]; rfl, iff_of_true hdetached ⟨htext, hgone⟩⟩
  · have hresolves : Resolves position entry := not_not.mp fun hnot => hgone (hrange.mpr hnot)
    have hdetached : isDetached thread = false := by simp [isDetached, hgone]
    have hsame : (PageDocument.readThreadRow thread).detached = isDetached thread := by
      rw [hflag, hdetached, decide_eq_false_iff_not]
      exact hgone
    refine iff_of_true ⟨hsame, by rw [isListed, isOpen, hsame]; rfl, ?_⟩ (.inr hresolves)
    rw [hdetached]
    exact iff_of_false Bool.false_ne_true fun htext => hgone htext.2

theorem exists_of_mem_readThreads {threads : YMap CommentEntry} {found : List CommentThread}
    (h : readThreads js position threads = some found) (hmem : thread ∈ found) :
    ∃ id entry, (id, CommentEntry.thread entry) ∈ threads.rows ∧
      readThread position id entry = some thread := by
  obtain ⟨unsorted, hunsorted, rfl⟩ := map_eq_some_iff.mp h
  rw [mem_mergeSort] at hmem
  obtain ⟨⟨id, entry⟩, hrow, hread⟩ := exists_of_mem_mapM hunsorted hmem
  obtain ⟨⟨key, value⟩, hstored, hentry⟩ := mem_filterMap.mp hrow
  cases value with
  | value v => cases hentry
  | thread stored =>
    obtain ⟨rfl, rfl⟩ := Prod.mk.inj (some.inj hentry)
    exact ⟨_, _, hstored, hread⟩

end Comments

namespace PageDocument

variable {js : Js} {doc : PageDocument} {pageId : String} {read : ReadDocument}

/-- **The flags of a document** are the client's answers. -/
def FlagsAgree (read : ReadDocument) : Prop :=
  ∀ (n : ℕ) thread row, read.commentThreads[n]? = some thread → read.comments[n]? = some row →
    Comments.Agree row thread

theorem flagsAgree_iff_forall (h : readDocument js doc pageId = some read) :
    FlagsAgree read ↔
      ∀ thread ∈ read.commentThreads, Comments.Agree (readThreadRow thread) thread := by
  obtain ⟨threads, -, rfl⟩ := map_eq_some_iff.mp h
  constructor
  · intro hagree thread hmem
    obtain ⟨n, hn⟩ := mem_iff_getElem?.mp hmem
    refine hagree n thread _ hn ?_
    show (threads.map readThreadRow)[n]? = some _
    rw [List.getElem?_map, hn]
    rfl
  · intro hall n thread row hthread hrow
    have hmap : (threads.map readThreadRow)[n]? = some row := hrow
    rw [List.getElem?_map, hthread] at hmap
    obtain rfl := some.inj hmap
    exact hall thread (mem_of_getElem? hthread)

/-- **When the flags agree**: every thread is about text, or its ends are in two places. -/
theorem flagsAgree_iff (h : readDocument js doc pageId = some read) :
    FlagsAgree read ↔ ∀ id entry, (id, CommentEntry.thread entry) ∈ doc.comments.rows →
      Comments.IsAboutText entry ∨ Comments.Resolves doc.position entry := by
  rw [flagsAgree_iff_forall h]
  obtain ⟨threads, hthreads, rfl⟩ := map_eq_some_iff.mp h
  constructor
  · intro hall id entry hmem
    have hsome := Comments.readThreads_isSome_iff.mp (isSome_iff_exists.mpr ⟨_, hthreads⟩)
      id entry hmem
    obtain ⟨thread, hread⟩ := isSome_iff_exists.mp
      ((@Comments.readThread_isSome_iff doc.position id entry).mpr hsome)
    exact (Comments.agree_readThreadRow_iff hread).mp
      (hall thread (Comments.mem_readThreads hthreads hmem hread))
  · intro hall thread hmem
    obtain ⟨id, entry, hstored, hread⟩ := Comments.exists_of_mem_readThreads hthreads hmem
    exact (Comments.agree_readThreadRow_iff hread).mpr (hall id entry hstored)

/-! ### A comment on a canvas item -/

/-- What `addThread` stores of a thread about an item. -/
def itemThread : YMap ThreadValue :=
  (((YMap.empty.set ThreadKeys.«from» (.bytes [])).set ThreadKeys.to (.bytes [])).set
    ThreadKeys.item (.value (.plain (.string "i1")))).set ThreadKeys.quote
      (.value (.plain (.string "A box")))

def commentedBoard : PageDocument where
  page := YMap.empty
  content := []
  canvas := YMap.empty
  comments := YMap.empty.set "t1" (.thread itemThread)

theorem exists_readDocument_commentedBoard :
    ∃ read, readDocument Js.ascii commentedBoard "p1" = some read :=
  isSome_iff_exists.mp rfl

/-- **It is listed as detached**, and is not. -/
theorem not_flagsAgree : ¬∀ (js : Js) (doc : PageDocument) (pageId : String) (read : ReadDocument),
    readDocument js doc pageId = some read → FlagsAgree read := by
  intro h
  obtain ⟨read, hread⟩ := exists_readDocument_commentedBoard
  have hall := (flagsAgree_iff_forall hread).mp (h _ _ _ _ hread)
  obtain ⟨threads, hthreads, rfl⟩ := map_eq_some_iff.mp hread
  obtain ⟨thread, hthread⟩ : ∃ thread,
      Comments.readThread commentedBoard.position "t1" itemThread = some thread :=
    isSome_iff_exists.mp rfl
  have hagree := (Comments.agree_readThreadRow_iff hthread).mp
    (hall thread (Comments.mem_readThreads hthreads mem_cons_self hthread))
  rcases hagree with habout | ⟨start, stop, hstart, -, -⟩
  · exact absurd habout.item (by decide)
  · cases hstart

theorem flagsAgree_iff_commentedBoard :
    ∃ read, readDocument Js.ascii commentedBoard "p1" = some read ∧
      (FlagsAgree read ↔ ∀ id entry,
        (id, CommentEntry.thread entry) ∈ commentedBoard.comments.rows →
          Comments.IsAboutText entry ∨ Comments.Resolves commentedBoard.position entry) := by
  obtain ⟨read, hread⟩ := exists_readDocument_commentedBoard
  exact ⟨read, hread, flagsAgree_iff hread⟩

end PageDocument

end Sone
