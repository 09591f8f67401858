import Sone.Doc.Comments

/-!
# Who is told about a comment

`notificationsFor` (`notifications/fromComments.ts`) fills a map from a person and a message to the
one candidate there is for them: first whom the message names, then who has written before it in
its thread. What it reads is what clients wrote, so a name may be any text.

The threads are walked as one list of messages, each with who has written before it (`Occasion`).
`Tells` says what is in the map after some of them, and `Tells.tell` that the next one adds what is
due for it. `notificationsFor_spec` is what that makes of the whole list.
-/

namespace Sone

open List

def isGuestKey (key : String) : Bool := (String.toList "guest:").isPrefixOf key.toList

/-- `isAccountId`, of a text. -/
def isAccountId (value : String) : Bool := !isGuestKey value && isUuidText value

inductive CandidateKind
  | mention
  | reply
  | assignment
  deriving DecidableEq

structure Candidate where
  userId : String
  actorId : Option String
  kind : CandidateKind
  threadId : Option String
  messageId : String
  excerpt : String
  deriving DecidableEq

namespace Candidate

/-- `EXCERPT` -/
def excerptLength : ℕ := 140

def accountOrNull (author : String) : Option String :=
  if isAccountId author then some author else none

def ofMessage (thread : CommentThread) (message : CommentMessage) (kind : CandidateKind)
    (who : String) : Candidate where
  userId := who
  actorId := accountOrNull message.author
  kind := kind
  threadId := some thread.id
  messageId := message.id
  excerpt := JsString.slice excerptLength message.text

def keyOf (messageId who : String) : String := who ++ ":" ++ messageId

def addMention (thread : CommentThread) (message : CommentMessage) (out : YMap Candidate)
    (who : String) : YMap Candidate :=
  if !isAccountId who ∨ who = message.author then out
  else out.set (keyOf message.id who) (ofMessage thread message .mention who)

/-- A person who wrote before the message. A mention wins. -/
def addReply (thread : CommentThread) (message : CommentMessage) (out : YMap Candidate)
    (who : String) : YMap Candidate :=
  if who = message.author ∨ !isAccountId who then out
  else if out.has (keyOf message.id who) then out
  else out.set (keyOf message.id who) (ofMessage thread message .reply who)

/-- `before.add(author)` -/
def join (before : List String) (message : CommentMessage) : List String :=
  if message.author ∈ before then before else before ++ [message.author]

def addMessage (thread : CommentThread) (state : YMap Candidate × List String)
    (message : CommentMessage) : YMap Candidate × List String :=
  (state.2.foldl (addReply thread message)
    (message.mentions.foldl (addMention thread message) state.1), join state.2 message)

def addThread (out : YMap Candidate) (thread : CommentThread) : YMap Candidate :=
  (thread.messages.foldl (addMessage thread) (out, [])).1

end Candidate

open Candidate

def notificationsFor (threads : List CommentThread) : List Candidate :=
  (threads.foldl addThread YMap.empty).rows.map (·.2)

/-! ### What is due -/

/-- **A candidate is due** for a message that comes after the authors: of an account that the
message names, or that is one of them, and that did not write it. -/
def Candidate.IsDue (c : Candidate) (thread : CommentThread) (authors : List String)
    (message : CommentMessage) : Prop :=
  isAccountId c.userId = true ∧ c.userId ≠ message.author ∧
    (c.userId ∈ message.mentions ∧ c = ofMessage thread message .mention c.userId ∨
      c.userId ∈ authors ∧ c.userId ∉ message.mentions ∧
        c = ofMessage thread message .reply c.userId)

/-- A message of a thread, and who has written in it before. -/
structure Occasion where
  thread : CommentThread
  before : List String
  message : CommentMessage

namespace Occasion

def ofMessages (thread : CommentThread) : List String → List CommentMessage → List Occasion
  | _, [] => []
  | before, message :: messages =>
    ⟨thread, before, message⟩ :: ofMessages thread (join before message) messages

def ofThreads (threads : List CommentThread) : List Occasion :=
  threads.flatMap fun thread => ofMessages thread [] thread.messages

def tell (out : YMap Candidate) (o : Occasion) : YMap Candidate :=
  o.before.foldl (addReply o.thread o.message)
    (o.message.mentions.foldl (addMention o.thread o.message) out)

variable {thread : CommentThread} {before : List String} {messages : List CommentMessage}
  {o : Occasion} {out : YMap Candidate} {c : Candidate}

theorem foldl_addMessage (thread : CommentThread) (messages : List CommentMessage)
    (out : YMap Candidate) (before : List String) :
    (messages.foldl (addMessage thread) (out, before)).1 =
      (ofMessages thread before messages).foldl tell out := by
  induction messages generalizing out before with
  | nil => rfl
  | cons message messages ih => exact ih _ _

theorem foldl_addThread (threads : List CommentThread) (out : YMap Candidate) :
    threads.foldl addThread out = (ofThreads threads).foldl tell out := by
  induction threads generalizing out with
  | nil => rfl
  | cons thread threads ih =>
    rw [foldl_cons, ih, addThread, foldl_addMessage, ofThreads, ofThreads, flatMap_cons,
      foldl_append]

theorem map_id_ofMessages :
    (ofMessages thread before messages).map (·.message) = messages := by
  induction messages generalizing before with
  | nil => rfl
  | cons message messages ih => rw [ofMessages, map_cons, ih]

theorem mem_ofMessages :
    o ∈ ofMessages thread before messages ↔ ∃ earlier message later,
      messages = earlier ++ message :: later ∧
        o = ⟨thread, earlier.foldl join before, message⟩ := by
  induction messages generalizing before with
  | nil => simp [ofMessages]
  | cons first messages ih =>
    rw [ofMessages, mem_cons, ih]
    constructor
    · rintro (rfl | ⟨earlier, message, later, rfl, rfl⟩)
      · exact ⟨[], first, messages, rfl, rfl⟩
      · exact ⟨first :: earlier, message, later, rfl, rfl⟩
    · rintro ⟨_ | ⟨_, earlier⟩, message, later, hsplit, rfl⟩
      · obtain ⟨rfl, rfl⟩ := cons.inj hsplit
        exact .inl rfl
      · obtain ⟨rfl, rfl⟩ := cons.inj hsplit
        exact .inr ⟨earlier, message, later, rfl, rfl⟩

theorem mem_foldl_join {who : String} :
    who ∈ messages.foldl join before ↔ who ∈ before ∨ who ∈ messages.map (·.author) := by
  induction messages generalizing before with
  | nil => simp
  | cons message messages ih =>
    have hjoin : who ∈ join before message ↔ who ∈ before ∨ who = message.author := by
      rw [join]
      split_ifs with hmem
      · exact ⟨.inl, fun h => h.elim id fun heq => heq ▸ hmem⟩
      · simp
    rw [foldl_cons, ih, hjoin, map_cons, mem_cons, or_assoc]

/-! ### One message -/

theorem keyOf_inj {id id' who who' : String} (h : isAccountId who = true)
    (h' : isAccountId who' = true) : keyOf id who = keyOf id' who' ↔ who = who' ∧ id = id' := by
  -- A uuid has no colon in it.
  have hwho : ∀ {id who}, isAccountId who = true →
      (keyOf id who).toList.takeWhile (· ≠ ':') = who.toList := by
    intro id who haccount
    have hcolon : ∀ c ∈ who.toList, decide (c ≠ ':') = true := by
      refine fun c hc => decide_eq_true ?_
      rintro rfl
      rcases mem_of_isUuidText (Bool.and_eq_true_iff.mp haccount).2 _ hc with hhex | hdash
      · exact absurd hhex (by decide)
      · exact absurd hdash (by decide)
    rw [keyOf, String.toList_append, String.toList_append, append_assoc,
      takeWhile_append_of_pos hcolon]
    exact append_nil _
  refine ⟨fun heq => ?_, fun heq => by rw [heq.1, heq.2]⟩
  obtain rfl : who = who' := by
    rw [← String.toList_inj, ← @hwho id who h, heq, hwho h']
  simpa [keyOf, ← String.toList_inj] using heq

theorem get_foldl {step : YMap Candidate → String → YMap Candidate} {key who : String} {p : Prop}
    [Decidable p] {f : Option Candidate → Option Candidate}
    (hstep : ∀ out name, (step out name).get key =
      if name = who ∧ p then f (out.get key) else out.get key)
    (hf : ∀ old, f (f old) = f old) (names : List String) (out : YMap Candidate) :
    (names.foldl step out).get key =
      if who ∈ names ∧ p then f (out.get key) else out.get key := by
  induction names generalizing out with
  | nil => simp
  | cons name names ih =>
    rw [foldl_cons, ih, hstep]
    rcases eq_or_ne name who with rfl | hname
    · by_cases hp : p <;> by_cases hmem : name ∈ names <;> simp [hp, hmem, hf]
    · simp [hname, hname.symm]

def Hears (message : CommentMessage) (who : String) : Prop :=
  isAccountId who = true ∧ who ≠ message.author

instance (message : CommentMessage) (who : String) : Decidable (Hears message who) :=
  inferInstanceAs (Decidable (_ ∧ _))

variable {message : CommentMessage} {key who : String}

theorem get_addMention (out : YMap Candidate) (name : String) :
    (addMention thread message out name).get key =
      if keyOf message.id name = key ∧ Hears message name then
        some (ofMessage thread message .mention name) else out.get key := by
  rw [addMention]
  by_cases haccount : isAccountId name = true <;> by_cases hauthor : name = message.author <;>
    simp [Hears, haccount, hauthor, YMap.get_set]

theorem get_addReply (out : YMap Candidate) (name : String) :
    (addReply thread message out name).get key =
      if keyOf message.id name = key ∧ Hears message name then
        (out.get key).or (some (ofMessage thread message .reply name)) else out.get key := by
  rw [addReply]
  by_cases haccount : isAccountId name = true
  · by_cases hauthor : name = message.author
    · simp [Hears, hauthor]
    · rcases eq_or_ne (keyOf message.id name) key with rfl | hkey
      · rcases hget : out.get (keyOf message.id name) with _ | old <;>
          simp [Hears, haccount, hauthor, YMap.has, YMap.get_set, hget]
      · split_ifs <;> simp_all [YMap.get_set]
  · simp [Hears, haccount]

theorem get_tell (hnone : out.get (keyOf o.message.id who) = none) :
    (tell out o).get (keyOf o.message.id who) =
      if Hears o.message who then
        if who ∈ o.message.mentions then some (ofMessage o.thread o.message .mention who)
        else if who ∈ o.before then some (ofMessage o.thread o.message .reply who) else none
      else none := by
  have hkey : ∀ name, keyOf o.message.id name = keyOf o.message.id who ↔ name = who := fun name =>
    by simp [keyOf, ← String.toList_inj]
  have hmention := @get_foldl (addMention o.thread o.message) (keyOf o.message.id who) who
    (Hears o.message who) _ (fun _ => some (ofMessage o.thread o.message .mention who))
    (fun out name => by
      simp only [get_addMention, hkey]
      rcases eq_or_ne name who with rfl | hname
      · rfl
      · simp [hname]) (fun _ => rfl) o.message.mentions out
  have hreply := @get_foldl (addReply o.thread o.message) (keyOf o.message.id who) who
    (Hears o.message who) _ (·.or (some (ofMessage o.thread o.message .reply who)))
    (fun out name => by
      simp only [get_addReply, hkey]
      rcases eq_or_ne name who with rfl | hname
      · rfl
      · simp [hname]) (fun old => by cases old <;> rfl) o.before
  rw [tell, hreply, hmention, hnone]
  by_cases hhears : Hears o.message who <;> by_cases hnamed : who ∈ o.message.mentions <;>
    simp [hhears, hnamed]

theorem get_tell_of_ne (hne : ∀ name, isAccountId name = true → keyOf o.message.id name ≠ key) :
    (tell out o).get key = out.get key := by
  have hskip : ∀ name, ¬(keyOf o.message.id name = key ∧ Hears o.message name) := fun name h =>
    hne name h.2.1 h.1
  have hmention := @get_foldl (addMention o.thread o.message) key "" False _ id
    (fun out name => by simp [get_addMention, hskip]) (fun _ => rfl) o.message.mentions out
  have hreply := @get_foldl (addReply o.thread o.message) key "" False _ id
    (fun out name => by simp [get_addReply, hskip]) (fun _ => rfl) o.before
  simpa [tell, hmention] using hreply (o.message.mentions.foldl (addMention o.thread o.message) out)

/-! ### All messages -/

def Due (o : Occasion) (c : Candidate) : Prop := c.IsDue o.thread o.before o.message

/-- **What the map has** after some messages: what was due for them, each under its key. -/
def Tells (out : YMap Candidate) (told : List Occasion) : Prop :=
  ∀ key c, out.get key = some c ↔ key = keyOf c.messageId c.userId ∧ ∃ o ∈ told, o.Due c

theorem Due.messageId_eq (h : o.Due c) : c.messageId = o.message.id := by
  rcases h.2.2 with ⟨-, hc⟩ | ⟨-, -, hc⟩ <;> rw [hc] <;> rfl

/-- **A message adds what is due for it.** -/
theorem Tells.tell {told : List Occasion} (h : Tells out told)
    (hnew : ∀ o' ∈ told, o'.message.id ≠ o.message.id) : Tells (o.tell out) (told ++ [o]) := by
  intro key c
  by_cases hkey : ∃ who, isAccountId who = true ∧ keyOf o.message.id who = key
  · obtain ⟨who, haccount, rfl⟩ := hkey
    have hold : ∀ c, ¬(keyOf o.message.id who = keyOf c.messageId c.userId ∧
        ∃ o' ∈ told, o'.Due c) := by
      rintro c ⟨hkey, o', ho', hdue⟩
      exact hnew o' ho' (hdue.messageId_eq.symm.trans ((keyOf_inj haccount hdue.1).mp hkey).2.symm)
    rw [get_tell (Option.eq_none_iff_forall_ne_some.mpr fun c hc => hold c ((h _ _).mp hc))]
    constructor
    · intro hc
      split_ifs at hc with hhears hnamed hbefore <;> obtain rfl := Option.some.inj hc
      · exact ⟨rfl, o, by simp, hhears.1, hhears.2, .inl ⟨hnamed, rfl⟩⟩
      · exact ⟨rfl, o, by simp, hhears.1, hhears.2, .inr ⟨hbefore, hnamed, rfl⟩⟩
    · rintro ⟨hkey, o', ho', hdue⟩
      rcases mem_append.mp ho' with ho' | ho'
      · exact absurd ⟨hkey, o', ho', hdue⟩ (hold c)
      · obtain rfl := mem_singleton.mp ho'
        obtain ⟨rfl, -⟩ := (keyOf_inj haccount hdue.1).mp hkey
        rw [if_pos ⟨hdue.1, hdue.2.1⟩]
        rcases hdue.2.2 with ⟨hnamed, hc⟩ | ⟨hbefore, hnamed, hc⟩
        · rw [if_pos hnamed, ← hc]
        · rw [if_neg hnamed, if_pos hbefore, ← hc]
  · rw [get_tell_of_ne fun name haccount heq => hkey ⟨name, haccount, heq⟩, h]
    refine and_congr_right fun hc => ⟨fun ⟨o', ho', hdue⟩ => ⟨o', by simp [ho'], hdue⟩, ?_⟩
    rintro ⟨o', ho', hdue⟩
    rcases mem_append.mp ho' with ho' | ho'
    · exact ⟨o', ho', hdue⟩
    · obtain rfl := mem_singleton.mp ho'
      exact absurd ⟨c.userId, hdue.1, by rw [hc, hdue.messageId_eq]⟩ hkey

theorem Tells.foldl {told : List Occasion} (h : Tells out told) {later : List Occasion}
    (hids : ((told ++ later).map (·.message.id)).Nodup) :
    Tells (later.foldl Occasion.tell out) (told ++ later) := by
  induction later generalizing out told with
  | nil => rwa [append_nil]
  | cons o later ih =>
    rw [append_cons] at hids ⊢
    refine ih (h.tell fun o' ho' heq => ?_) hids
    rw [map_append, map_append, append_assoc] at hids
    exact (nodup_append.mp hids).2.2 _ (mem_map_of_mem ho') _ (by simp) heq

end Occasion

open Occasion

variable {threads : List CommentThread}

theorem mem_notificationsFor (h : ((threads.flatMap (·.messages)).map (·.id)).Nodup) :
    ((ofThreads threads).map (·.message.id)).Nodup ∧
      (∀ c, c ∈ notificationsFor threads ↔ ∃ o ∈ ofThreads threads, o.Due c) ∧
        ((notificationsFor threads).map fun c => (c.userId, c.messageId)).Nodup := by
  have hmessages : (ofThreads threads).map (·.message) = threads.flatMap (·.messages) := by
    rw [ofThreads, map_flatMap]
    simp only [map_id_ofMessages]
  have hids : ((ofThreads threads).map (·.message.id)).Nodup := by
    rw [← hmessages, List.map_map] at h
    exact h
  have htells : Tells (threads.foldl addThread YMap.empty) (ofThreads threads) := by
    rw [foldl_addThread]
    exact @Tells.foldl YMap.empty [] (fun key c => by simp) (ofThreads threads) hids
  have hget : ∀ row ∈ (threads.foldl addThread YMap.empty).rows,
      (threads.foldl addThread YMap.empty).get row.1 = some row.2 := fun row hrow => by
    rw [YMap.get, Keyed.mem_rows_iff.mp hrow, Option.map_some]
  refine ⟨hids, fun c => ⟨fun hc => ?_, fun hc => ?_⟩, ?_⟩
  · obtain ⟨row, hrow, rfl⟩ := List.mem_map.mp hc
    exact ((htells _ _).mp (hget row hrow)).2
  · obtain ⟨row, hrow, heq⟩ := Option.map_eq_some_iff.mp ((htells _ c).mpr ⟨rfl, hc⟩)
    exact List.mem_map.mpr ⟨row, Keyed.mem_rows hrow, heq⟩
  · refine Nodup.of_map (fun pair : String × String => keyOf pair.2 pair.1) ?_
    have hnodup := (threads.foldl addThread YMap.empty).nodup
    rw [notificationsFor, List.map_map, List.map_map]
    rwa [map_congr_left fun row hrow => ((htells _ _).mp (hget row hrow)).1] at hnodup

/-- **Who is told about a comment**: each person at most once about a message; those the message
names, but its author; and those who wrote before it in its thread, but its author and whom it
names. So nobody is told of a reply they were not there for. -/
theorem notificationsFor_spec (threads : List CommentThread)
    (h : ((threads.flatMap (·.messages)).map (·.id)).Nodup) :
    ((notificationsFor threads).map fun c => (c.userId, c.messageId)).Nodup ∧
      (∀ c, c ∈ notificationsFor threads ↔ ∃ thread ∈ threads, ∃ earlier message later,
        thread.messages = earlier ++ message :: later ∧
          c.IsDue thread (earlier.map (·.author)) message) ∧
        ∀ c ∈ notificationsFor threads, c.kind = .reply → ∀ thread ∈ threads,
          ∀ earlier message later, thread.messages = earlier ++ message :: later →
            c.messageId = message.id → c.userId ∈ earlier.map (·.author) := by
  obtain ⟨hids, hmem, hnodup⟩ := mem_notificationsFor h
  have hbefore : ∀ {who : String} {earlier : List CommentMessage},
      who ∈ earlier.foldl join [] ↔ who ∈ earlier.map (·.author) := by
    simp [mem_foldl_join]
  refine ⟨hnodup, fun c => ?_, fun c hc hkind thread hthread earlier message later hsplit hid => ?_⟩
  · rw [hmem]
    constructor
    · rintro ⟨o, ho, hdue⟩
      obtain ⟨thread, hthread, ho⟩ := mem_flatMap.mp ho
      obtain ⟨earlier, message, later, hsplit, rfl⟩ := mem_ofMessages.mp ho
      rw [Due, IsDue, hbefore] at hdue
      exact ⟨thread, hthread, earlier, message, later, hsplit, hdue⟩
    · rintro ⟨thread, hthread, earlier, message, later, hsplit, hdue⟩
      rw [IsDue, ← hbefore] at hdue
      exact ⟨_, mem_flatMap.mpr ⟨thread, hthread,
        mem_ofMessages.mpr ⟨earlier, message, later, hsplit, rfl⟩⟩, hdue⟩
  · obtain ⟨o, ho, hdue⟩ := (hmem c).mp hc
    obtain rfl := inj_on_of_nodup_map hids ho (mem_flatMap.mpr ⟨thread, hthread,
      mem_ofMessages.mpr ⟨earlier, message, later, hsplit, rfl⟩⟩)
      (hdue.messageId_eq.symm.trans hid)
    rcases hdue.2.2 with ⟨-, hc⟩ | ⟨hwho, -, -⟩
    · rw [hc] at hkind
      cases hkind
    · exact hbefore.mp hwho

def answered : CommentThread where
  id := "t"
  «from» := []
  «to» := []
  item := none
  place := none
  quote := ""
  resolved := false
  resolvedBy := none
  resolvedAt := none
  createdAt := 0
  messages := [
    ⟨"m1", "00000000-0000-4000-8000-00000000000a", 0, "Ben?",
      ["00000000-0000-4000-8000-00000000000b"], false, false, false⟩,
    ⟨"m2", "00000000-0000-4000-8000-00000000000b", 1, "Yes.", [], false, false, false⟩]
  range := none

theorem notificationsFor_answered :
    ¬∃ c ∈ notificationsFor [answered], c.kind = .reply ∧ c.messageId = "m1" := by
  rintro ⟨c, hc, hkind, hid⟩
  have hjoined := (notificationsFor_spec [answered] (by decide)).2.2 c hc hkind answered
    (mem_singleton_self _) [] _ _ rfl hid
  exact not_mem_nil hjoined

/-- **A mention is told** to somebody who joins the thread later. -/
theorem mention_before_joining : ¬∀ threads : List CommentThread,
    ((threads.flatMap (·.messages)).map (·.id)).Nodup →
      ∀ c ∈ notificationsFor threads, ∀ thread ∈ threads, ∀ earlier message later,
        thread.messages = earlier ++ message :: later → c.messageId = message.id →
          c.userId ∈ later.map (·.author) → c.userId ∈ earlier.map (·.author) := by
  intro h
  have hmention : (notificationsFor [answered]).head?.map (fun c => (c.userId, c.messageId)) =
      some ("00000000-0000-4000-8000-00000000000b", "m1") := by
    decide +kernel
  obtain ⟨c, hc, heq⟩ := Option.map_eq_some_iff.mp hmention
  obtain ⟨huser, hid⟩ := Prod.mk.inj heq
  have hjoined := h [answered] (by decide) c (mem_of_mem_head? hc) answered (mem_singleton_self _)
    [] _ _ rfl hid (by rw [huser]; decide)
  exact not_mem_nil hjoined

end Sone
