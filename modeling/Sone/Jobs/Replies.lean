import Sone.Account.Credentials

/-!
# Answers that arrive by mail

`pollReplies` (`jobs/replies.ts`) reads the unread mails of a mailbox (`mail/imap.ts`): each is
posted as a comment, or its sender is told why it was not, and then it is marked as read. The
comment and the mark are in two systems, and nothing keys a comment by its mail.

`replyPolls` is the machine of any number of instances at one mailbox, each with one poll at a
time: every event is one exchange with the mailbox, the relay or the database, and a poll may be
cut off before any of them, by an error or with its process. What a poll has posted or refused and
not marked when it is cut off is done again by the next one, and what two polls have found is done
by both. `once_of_reachesWhen`: there is nothing else.
-/

namespace Sone

open List Option Function

namespace Replies

/-! ### One mail -/

structure TrimmedReply where
  text : String
  trimmed : Bool
  deriving DecidableEq

/-- A mail, as `readMail` reads it. -/
structure ReplyMail where
  /-- `addressIn(mail.headers.get('from'))` -/
  sender : Option String
  /-- `deliveredAddresses(mail.headers)` -/
  addresses : List (List Char)
  /-- `trimReply(mail.text)`, where there is a text. -/
  body : Option TrimmedReply
  hadAttachments : Bool
  deriving DecidableEq

inductive RefusalReason where
  | expiredLink
  | notForUs
  | noText
  | threadGone
  | noAccess
  deriving DecidableEq

/-- What `locate` finds. -/
structure ThreadPlace where
  pageId : String
  workspaceId : String
  deriving DecidableEq

/-- `ReplyInput`, of a reply by mail. -/
structure ReplyInput where
  docId : String
  pageId : String
  workspaceId : String
  threadId : String
  authorId : String
  text : String
  internal : Bool
  trimmed : Bool
  hadAttachments : Bool
  deriving DecidableEq

/-- What the handling of a mail rests on. -/
structure ReplyEnv where
  signing : Signing
  /-- `internalDocId`, by SHA-1. -/
  internalDocId : String → String

inductive Verdict where
  | leave
  | refuse (reason : RefusalReason)
  | post (input : ReplyInput)
  deriving DecidableEq

/-- `[A-Za-z0-9_.-]` -/
def isTokenChar (c : Char) : Bool := c.isAlphanum || c = '_' || c = '.' || c = '-'

def tokenFromAddress : List Char → Option (List Char)
  | [] => none
  | c :: rest =>
    let token := rest.takeWhile isTokenChar
    if c = '+' ∧ token ≠ [] ∧ (rest.dropWhile isTokenChar).head? = some '@' then some token
    else tokenFromAddress rest

/-- What is decided of a mail, by what `locate` and `mayComment` answer. -/
def handle (env : ReplyEnv) (now : Instant) (mail : ReplyMail) (place : Option ThreadPlace)
    (mayComment : Bool) : Verdict :=
  match (mail.addresses.filterMap tokenFromAddress).head? with
  | none => .leave
  | some token =>
    match env.signing.readReplyToken token now with
    | .expired => .refuse .expiredLink
    | .malformed | .badSignature => .leave
    | .ok target =>
      match place with
      | none => .refuse .threadGone
      | some place =>
        if !mayComment then .refuse .noAccess
        else
          match mail.body.filter fun body => body.text ≠ "" with
          | none => .refuse .noText
          | some body => .post {
              docId := if target.internal then env.internalDocId place.pageId else place.pageId
              pageId := place.pageId
              workspaceId := place.workspaceId
              threadId := target.threadId
              authorId := target.userId
              text := body.text
              internal := target.internal
              trimmed := body.trimmed
              hadAttachments := mail.hadAttachments }

/-! ### The polls -/

/-- What a poll does next with the mail it has in hand. -/
inductive Stage where
  /-- Before `deps.refuse`. -/
  | refusing (reason : RefusalReason)
  /-- Before the comment is written into the document. -/
  | posting (input : ReplyInput)
  /-- The comment is written, and is to be projected. -/
  | projecting
  /-- Before `STORE`, and whether a comment or a refusal went out. -/
  | marking (answered : Bool)
  deriving DecidableEq

/-- Whether the mail has been answered, by a comment or a refusal. -/
def Stage.isAnswered : Stage → Bool
  | projecting => true
  | marking answered => answered
  | refusing _ | posting _ => false

/-- A poll: the mail in hand, and those that are still to be read. -/
structure Poll where
  hand : Option (ℕ × Stage)
  left : List ℕ
  deriving DecidableEq

def Poll.mails (poll : Poll) : List ℕ := (poll.hand.map (·.1)).toList ++ poll.left

def Poll.pending (poll : Poll) : List ℕ :=
  ((poll.hand.filter fun hand => !hand.2.isAnswered).map (·.1)).toList ++ poll.left

/-- The mailbox with its flags, the polls of the instances, and what has gone out: the comments
and the refusals, with the mail that each answers. -/
structure State where
  mails : List ReplyMail
  /-- `\\Seen` -/
  seen : ℕ → Bool
  polls : ℕ → Option Poll
  posted : List (ℕ × ReplyInput)
  refused : List (ℕ × RefusalReason)

inductive Event where
  /-- A mail is delivered. -/
  | arrives (mail : ReplyMail)
  /-- An instance with no poll logs in and searches. -/
  | starts (poller : ℕ)
  /-- The next mail is fetched, and decided by what the database answers. -/
  | reads (poller : ℕ) (now : Instant) (place : Option ThreadPlace) (mayComment : Bool)
  /-- `deps.refuse`, which writes to nobody where there is no relay or no address. -/
  | refuses (poller : ℕ) (relay : Bool)
  /-- The message is added, unless the thread is not in the document. -/
  | writes (poller : ℕ) (found : Bool)
  | projects (poller : ℕ)
  /-- `STORE … +FLAGS (\\Seen)` -/
  | marks (poller : ℕ)
  /-- `LOGOUT` -/
  | ends (poller : ℕ)
  /-- The poll is cut off. -/
  | isCut (poller : ℕ)
  deriving DecidableEq

/-- `MAX_PER_POLL` -/
def maxPerPoll : ℕ := 50

/-- `SEARCH UNSEEN` -/
def State.found (s : State) : List ℕ :=
  ((List.range s.mails.length).filter fun mail => !s.seen mail).take maxPerPoll

def State.sets (s : State) (poller : ℕ) (poll : Option Poll) : State :=
  { s with polls := Function.update s.polls poller poll }

def Poll.takes (mail : ℕ) (left : List ℕ) : Verdict → Poll
  | .leave => ⟨none, left⟩
  | .refuse reason => ⟨some (mail, .refusing reason), left⟩
  | .post input => ⟨some (mail, .posting input), left⟩

/-- The state after an event, or `none` where it cannot happen. -/
def step (env : ReplyEnv) (s : State) : Event → Option State
  | .arrives mail => some { s with mails := s.mails ++ [mail] }
  | .starts poller =>
    if s.polls poller = none then some (s.sets poller (some ⟨none, s.found⟩)) else none
  | .reads poller now place mayComment =>
    match s.polls poller with
    | some ⟨none, mail :: left⟩ => (s.mails[mail]?).map fun content =>
      s.sets poller (some (Poll.takes mail left (handle env now content place mayComment)))
    | _ => none
  | .refuses poller relay =>
    match s.polls poller with
    | some ⟨some (mail, .refusing reason), left⟩ =>
      -- a refusal that cannot be sent is only logged
      let sent := relay && ((s.mails[mail]?).bind (·.sender)).isSome
      some { s.sets poller (some ⟨some (mail, .marking sent), left⟩) with
        refused := if sent then s.refused ++ [(mail, reason)] else s.refused }
    | _ => none
  | .writes poller found =>
    match s.polls poller with
    | some ⟨some (mail, .posting input), left⟩ =>
      if found then
        some { s.sets poller (some ⟨some (mail, .projecting), left⟩) with
          posted := s.posted ++ [(mail, input)] }
      else some (s.sets poller (some ⟨some (mail, .refusing .threadGone), left⟩))
    | _ => none
  | .projects poller =>
    match s.polls poller with
    | some ⟨some (mail, .projecting), left⟩ =>
      some (s.sets poller (some ⟨some (mail, .marking true), left⟩))
    | _ => none
  | .marks poller =>
    match s.polls poller with
    | some ⟨some (mail, .marking _), left⟩ =>
      some { s.sets poller (some ⟨none, left⟩) with seen := Function.update s.seen mail true }
    | _ => none
  | .ends poller =>
    match s.polls poller with
    | some ⟨none, []⟩ => some (s.sets poller none)
    | _ => none
  | .isCut poller =>
    match s.polls poller with
    | some _ => some (s.sets poller none)
    | none => none

end Replies

open Replies in
/-- **The polls of a mailbox**, whatever is in it. -/
def replyPolls (env : ReplyEnv) : Machine State Event where
  init s := s.polls = (fun _ => none) ∧ s.posted = [] ∧ s.refused = []
  step := Replies.step env

namespace Replies

variable {env : ReplyEnv} {s s' : State} {e : Event}

/-- **Each mail is answered once**: one comment is posted for it at most, and one refusal sent. -/
def Once (s : State) : Prop :=
  ∀ mail, (s.posted.countP fun posted => posted.1 = mail) ≤ 1 ∧
    (s.refused.countP fun refused => refused.1 = mail) ≤ 1

/-- **What must not happen**: that a search finds a mail that another poll has found and is not
done with, or that a poll is cut off between an answer and the mark. -/
def Guarded (s : State) : Event → Prop
  | .starts _ => ∀ other poll, s.polls other = some poll → ∀ mail ∈ poll.mails, mail ∉ s.found
  | .isCut poller => ∀ poll ∈ s.polls poller, ∀ hand ∈ poll.hand, hand.2.isAnswered = false
  | .arrives _ | .reads _ _ _ _ | .refuses _ _ | .writes _ _ | .projects _ | .marks _
  | .ends _ => True

/-! ### What a poll leaves -/

def State.answers (s : State) (mail : ℕ) : ℕ :=
  (s.posted.countP fun posted => posted.1 = mail) +
    s.refused.countP fun refused => refused.1 = mail

/-- **What holds as long as nothing of this happens**: no mail is with two polls, or twice with
one; what a poll is to answer, and what is unread and with no poll, is not answered; and nothing is
answered twice. -/
structure Sound (s : State) : Prop where
  apart : ∀ poller other poll poll', s.polls poller = some poll → s.polls other = some poll' →
    poller ≠ other → ∀ mail ∈ poll.mails, mail ∉ poll'.mails
  nodup : ∀ poller poll, s.polls poller = some poll → poll.mails.Nodup
  pending : ∀ poller poll, s.polls poller = some poll → ∀ mail ∈ poll.pending, s.answers mail = 0
  unread : ∀ mail, s.seen mail = false →
    (∀ poller poll, s.polls poller = some poll → mail ∉ poll.mails) → s.answers mail = 0
  once : ∀ mail, s.answers mail ≤ 1

theorem Sound.isOnce (h : Sound s) : Once s := by
  intro mail
  have hle := h.once mail
  rw [State.answers] at hle
  omega

theorem Poll.mem_mails_of_mem_pending {poll : Poll} {mail : ℕ} (h : mail ∈ poll.pending) :
    mail ∈ poll.mails := by
  rw [pending, mem_append] at h
  rw [mails, mem_append]
  refine h.imp_left fun h => ?_
  obtain ⟨hand, hhand, rfl⟩ := map_eq_some_iff.mp (mem_toList.mp h)
  rw [eq_some_of_filter_eq_some hhand]
  simp

@[simp]
theorem State.sets_polls {poller : ℕ} {poll : Option Poll} :
    (s.sets poller poll).polls = Function.update s.polls poller poll :=
  rfl

@[simp]
theorem State.sets_posted {poller : ℕ} {poll : Option Poll} :
    (s.sets poller poll).posted = s.posted :=
  rfl

@[simp]
theorem State.sets_refused {poller : ℕ} {poll : Option Poll} :
    (s.sets poller poll).refused = s.refused :=
  rfl

@[simp]
theorem Poll.mails_hand {mail : ℕ} {stage : Stage} {left : List ℕ} :
    (⟨some (mail, stage), left⟩ : Poll).mails = mail :: left :=
  rfl

@[simp]
theorem Poll.mails_none {left : List ℕ} : (⟨none, left⟩ : Poll).mails = left := rfl

@[simp]
theorem Poll.pending_none {left : List ℕ} : (⟨none, left⟩ : Poll).pending = left := rfl

theorem Poll.pending_hand {mail : ℕ} {stage : Stage} {left : List ℕ} :
    (⟨some (mail, stage), left⟩ : Poll).pending =
      if stage.isAnswered then left else mail :: left := by
  rw [pending, filter_some]
  cases stage.isAnswered <;> rfl

/-- **A step of one poll** keeps all this, where it goes on with mails it had, answers none but
its own, and leaves none of them unread that it has answered. -/
theorem Sound.sets (h : Sound s) {poller : ℕ} {poll : Poll} {next : Option Poll}
    (hpoll : s.polls poller = some poll)
    (hpolls : s'.polls = Function.update s.polls poller next)
    (hmails : ∀ p ∈ next, p.mails.Sublist poll.mails)
    (hothers : ∀ mail, mail ∉ poll.mails → s'.answers mail = s.answers mail)
    (hpending : ∀ p ∈ next, ∀ mail ∈ p.pending, s'.answers mail = 0)
    (hseen : ∀ mail, s'.seen mail = false → s.seen mail = false)
    (hunread : ∀ mail ∈ poll.mails, (∀ p ∈ next, mail ∉ p.mails) → s'.seen mail = false →
      s'.answers mail = 0)
    (honce : ∀ mail ∈ poll.mails, s'.answers mail ≤ 1) : Sound s' := by
  have hself : ∀ p, s'.polls poller = some p → next = some p := by
    intro p hp
    rwa [hpolls, update_self] at hp
  have hother : ∀ other p, other ≠ poller → s'.polls other = some p → s.polls other = some p := by
    intro other p hne hp
    rwa [hpolls, update_of_ne hne] at hp
  refine ⟨?_, ?_, ?_, ?_, ?_⟩
  · intro a b p q hp hq hab mail hmail
    by_cases ha : a = poller
    · subst ha
      have hq := hother b q (Ne.symm hab) hq
      exact h.apart a b poll q hpoll hq hab mail ((hmails p (hself p hp)).subset hmail)
    · have hp := hother a p ha hp
      by_cases hb : b = poller
      · subst hb
        intro hmail'
        exact h.apart a b p poll hp hpoll hab mail hmail ((hmails q (hself q hq)).subset hmail')
      · exact h.apart a b p q hp (hother b q hb hq) hab mail hmail
  · intro a p hp
    by_cases ha : a = poller
    · subst ha
      exact (h.nodup a poll hpoll).sublist (hmails p (hself p hp))
    · exact h.nodup a p (hother a p ha hp)
  · intro a p hp mail hmail
    by_cases ha : a = poller
    · subst ha
      exact hpending p (hself p hp) mail hmail
    · have hp := hother a p ha hp
      have hnot := h.apart a poller p poll hp hpoll ha mail (Poll.mem_mails_of_mem_pending hmail)
      rw [hothers mail hnot]
      exact h.pending a p hp mail hmail
  · intro mail hunseen hfree
    by_cases hmem : mail ∈ poll.mails
    · refine hunread mail hmem (fun p hp => hfree poller p ?_) hunseen
      rw [hpolls, update_self]
      exact hp
    · rw [hothers mail hmem]
      refine h.unread mail (hseen mail hunseen) fun a p hp => ?_
      by_cases ha : a = poller
      · subst ha
        obtain rfl := some.inj (hpoll.symm.trans hp)
        exact hmem
      · refine hfree a p ?_
        rwa [hpolls, update_of_ne ha]
  · intro mail
    by_cases hmem : mail ∈ poll.mails
    · exact honce mail hmem
    · rw [hothers mail hmem]
      exact h.once mail

theorem Sound.sets_of_answers (h : Sound s) {poller : ℕ} {poll : Poll} {next : Option Poll}
    (hpoll : s.polls poller = some poll)
    (hpolls : s'.polls = Function.update s.polls poller next)
    (hanswers : ∀ mail, s'.answers mail = s.answers mail)
    (hmails : ∀ p ∈ next, p.mails.Sublist poll.mails)
    (hpending : ∀ p ∈ next, ∀ mail ∈ p.pending, mail ∈ poll.pending)
    (hseen : ∀ mail, s'.seen mail = false → s.seen mail = false)
    (hunread : ∀ mail ∈ poll.mails, (∀ p ∈ next, mail ∉ p.mails) → s'.seen mail = false →
      mail ∈ poll.pending) : Sound s' := by
  refine h.sets hpoll hpolls hmails (fun mail _ => hanswers mail) (fun p hp mail hmail => ?_) hseen
    (fun mail hmail hfree hunseen => ?_) fun mail _ => hanswers mail ▸ h.once mail
  · rw [hanswers]
    exact h.pending poller poll hpoll mail (hpending p hp mail hmail)
  · rw [hanswers]
    exact h.pending poller poll hpoll mail (hunread mail hmail hfree hunseen)

theorem Sound.sets_hand (h : Sound s) {poller mail : ℕ} {stage next : Stage} {left : List ℕ}
    (hpoll : s.polls poller = some ⟨some (mail, stage), left⟩)
    (hnext : stage.isAnswered = true → next.isAnswered = true)
    (hpolls : s'.polls = Function.update s.polls poller (some ⟨some (mail, next), left⟩))
    (hanswers : ∀ mail, s'.answers mail = s.answers mail) (hseen : s'.seen = s.seen) :
    Sound s' := by
  refine h.sets_of_answers hpoll hpolls hanswers ?_ ?_ (fun other => hseen ▸ id) ?_
  · rintro p ⟨⟩
    exact List.Sublist.refl _
  · rintro p ⟨⟩ other hother
    rw [Poll.pending_hand] at hother ⊢
    split
    · rename_i hstage
      rwa [if_pos (hnext hstage)] at hother
    · split at hother
      · exact mem_cons_of_mem _ hother
      · exact hother
  · intro other hother hfree _
    exact absurd hother (hfree ⟨some (mail, next), left⟩ rfl)

theorem Sound.sets_none (h : Sound s) {poller : ℕ} {poll : Poll}
    (hpoll : s.polls poller = some poll)
    (hhand : ∀ hand ∈ poll.hand, hand.2.isAnswered = false) : Sound (s.sets poller none) := by
  refine h.sets_of_answers hpoll rfl (fun _ => rfl) nofun nofun (fun _ hseen => hseen) ?_
  intro other hother _ _
  obtain ⟨hand, left⟩ := poll
  cases hand with
  | none => exact hother
  | some hand =>
    rw [Poll.pending_hand, hhand hand rfl]
    exact hother

theorem Sound.sets_of_answer (h : Sound s) {poller mail : ℕ} {stage next : Stage} {left : List ℕ}
    (hpoll : s.polls poller = some ⟨some (mail, stage), left⟩) (hstage : stage.isAnswered = false)
    (hnext : next.isAnswered = true)
    (hpolls : s'.polls = Function.update s.polls poller (some ⟨some (mail, next), left⟩))
    (hanswer : s'.answers mail = s.answers mail + 1)
    (hothers : ∀ other, other ≠ mail → s'.answers other = s.answers other)
    (hseen : s'.seen = s.seen) : Sound s' := by
  have hpendingOld : (⟨some (mail, stage), left⟩ : Poll).pending = mail :: left := by
    rw [Poll.pending_hand, hstage]
    rfl
  have hnotLeft : mail ∉ left :=
    (nodup_cons.mp (h.nodup poller _ hpoll)).1
  have hfresh : ∀ other ∈ mail :: left, s.answers other = 0 := fun other hmem =>
    h.pending poller _ hpoll other (hpendingOld ▸ hmem)
  refine h.sets hpoll hpolls ?_ ?_ ?_ ?_ ?_ ?_
  · rintro p ⟨⟩
    exact List.Sublist.refl _
  · intro other hother
    refine hothers other fun heq => hother ?_
    rw [Poll.mails_hand, heq]
    exact mem_cons_self
  · rintro p ⟨⟩ other hmem
    rw [Poll.pending_hand, if_pos hnext] at hmem
    rw [hothers other fun heq => hnotLeft (heq ▸ hmem)]
    exact hfresh other (mem_cons_of_mem _ hmem)
  · intro other
    rw [hseen]
    exact id
  · intro other hmem hfree
    exact absurd hmem (hfree ⟨some (mail, next), left⟩ rfl)
  · intro other hmem
    by_cases heq : other = mail
    · rw [heq, hanswer, hfresh mail mem_cons_self]
    · rw [hothers other heq]
      exact h.once other

/-! ### Steps -/

theorem sound_of_init (h : (replyPolls env).init s) : Sound s := by
  obtain ⟨hpolls, hposted, hrefused⟩ := h
  have hanswers : ∀ mail, s.answers mail = 0 := by
    intro mail
    rw [State.answers, hposted, hrefused]
    rfl
  refine ⟨?_, ?_, ?_, fun mail _ _ => hanswers mail, fun mail => by simp [hanswers]⟩
  · intro poller other poll poll' hpoll
    simp [hpolls] at hpoll
  · intro poller poll hpoll
    simp [hpolls] at hpoll
  · intro poller poll hpoll
    simp [hpolls] at hpoll

/-- **A search** keeps it, where what it finds is with no other poll. -/
theorem Sound.starts (h : Sound s) {poller : ℕ} (hnone : s.polls poller = none)
    (hguard : Guarded s (.starts poller)) :
    Sound (s.sets poller (some ⟨none, s.found⟩)) := by
  have hunread : ∀ mail ∈ s.found, s.answers mail = 0 := by
    intro mail hmail
    have hunseen : s.seen mail = false := by
      simpa using (mem_filter.mp (mem_of_mem_take hmail)).2
    refine h.unread mail hunseen fun other poll hpoll hmem => ?_
    exact hguard other poll hpoll mail hmem hmail
  have hcases : ∀ {other p}, (s.sets poller (some ⟨none, s.found⟩)).polls other = some p →
      (other = poller ∧ p = ⟨none, s.found⟩) ∨ (other ≠ poller ∧ s.polls other = some p) := by
    intro other p hp
    by_cases hother : other = poller
    · rw [hother, State.sets_polls, update_self, Option.some.injEq] at hp
      exact .inl ⟨hother, hp.symm⟩
    · rw [State.sets_polls, update_of_ne hother] at hp
      exact .inr ⟨hother, hp⟩
  refine ⟨?_, ?_, ?_, ?_, h.once⟩
  · intro a b p q hp hq hab mail hmail hmail'
    rcases hcases hp with ⟨rfl, rfl⟩ | ⟨-, hp'⟩
    · rcases hcases hq with ⟨rfl, -⟩ | ⟨-, hq'⟩
      · exact hab rfl
      · exact hguard b q hq' mail hmail' hmail
    · rcases hcases hq with ⟨rfl, rfl⟩ | ⟨-, hq'⟩
      · exact hguard a p hp' mail hmail hmail'
      · exact h.apart a b p q hp' hq' hab mail hmail hmail'
  · intro other p hp
    rcases hcases hp with ⟨rfl, rfl⟩ | ⟨-, hp⟩
    · exact (nodup_range.filter _).sublist (take_sublist _ _)
    · exact h.nodup other p hp
  · intro other p hp mail hmail
    rcases hcases hp with ⟨rfl, rfl⟩ | ⟨-, hp⟩
    · exact hunread mail hmail
    · exact h.pending other p hp mail hmail
  · intro mail hunseen hfree
    refine h.unread mail hunseen fun other p hp => ?_
    refine hfree other p ?_
    have hother : other ≠ poller := by
      rintro rfl
      rw [hnone] at hp
      cases hp
    rw [State.sets_polls, update_of_ne hother, hp]

theorem Poll.takes_cases (mail : ℕ) (left : List ℕ) (verdict : Verdict) :
    (Poll.takes mail left verdict).mails.Sublist (mail :: left) ∧
      (Poll.takes mail left verdict).pending = (Poll.takes mail left verdict).mails := by
  cases verdict with
  | leave => exact ⟨sublist_cons_self _ _, rfl⟩
  | refuse reason => exact ⟨List.Sublist.refl _, rfl⟩
  | post input => exact ⟨List.Sublist.refl _, rfl⟩

/-- **Every step** that meets the condition keeps it. -/
theorem Sound.step (h : Sound s) (hguard : Guarded s e) (hstep : step env s e = some s') :
    Sound s' := by
  cases e with
  | arrives mail =>
    obtain rfl := some.inj hstep
    exact ⟨h.apart, h.nodup, h.pending, h.unread, h.once⟩
  | starts poller =>
    rw [Replies.step] at hstep
    split at hstep
    · rename_i hnone
      obtain rfl := some.inj hstep
      exact h.starts hnone hguard
    · cases hstep
  | reads poller now place mayComment =>
    rw [Replies.step] at hstep
    split at hstep
    · rename_i mail left hpoll
      obtain ⟨content, -, rfl⟩ := map_eq_some_iff.mp hstep
      obtain ⟨hmails, hpending⟩ :=
        Poll.takes_cases mail left (handle env now content place mayComment)
      refine h.sets_of_answers hpoll rfl (fun _ => rfl) ?_ ?_ (fun _ hseen => hseen) ?_
      · rintro p ⟨⟩
        exact hmails
      · rintro p ⟨⟩ other hother
        exact hmails.subset (hpending ▸ hother)
      · intro other hother _ _
        exact hother
    · cases hstep
  | refuses poller relay =>
    rw [Replies.step] at hstep
    split at hstep
    · rename_i mail reason left hpoll
      simp only [Option.some.injEq] at hstep
      generalize (relay && ((s.mails[mail]?).bind (·.sender)).isSome) = sent at hstep
      subst hstep
      cases sent with
      | true =>
        refine h.sets_of_answer hpoll rfl rfl rfl ?_ ?_ rfl
        · simp [State.answers, countP_append, Nat.add_assoc]
        · intro other hother
          simp [State.answers, countP_append, Ne.symm hother]
      | false => exact h.sets_hand hpoll nofun rfl (fun _ => rfl) rfl
    · cases hstep
  | writes poller found =>
    rw [Replies.step] at hstep
    split at hstep
    · rename_i mail input left hpoll
      split at hstep
      · obtain rfl := some.inj hstep
        refine h.sets_of_answer hpoll rfl rfl rfl ?_ ?_ rfl
        · simp [State.answers, countP_append]
          omega
        · intro other hother
          simp [State.answers, countP_append, Ne.symm hother]
      · obtain rfl := some.inj hstep
        exact h.sets_hand hpoll nofun rfl (fun _ => rfl) rfl
    · cases hstep
  | projects poller =>
    rw [Replies.step] at hstep
    split at hstep
    · rename_i mail left hpoll
      obtain rfl := some.inj hstep
      exact h.sets_hand hpoll (fun _ => rfl) rfl (fun _ => rfl) rfl
    · cases hstep
  | marks poller =>
    rw [Replies.step] at hstep
    split at hstep
    · rename_i mail answered left hpoll
      obtain rfl := some.inj hstep
      refine h.sets_of_answers hpoll rfl (fun _ => rfl) ?_ ?_ ?_ ?_
      · rintro p ⟨⟩
        exact sublist_cons_self _ _
      · rintro p ⟨⟩ other hother
        rw [Poll.pending_hand]
        split
        · exact hother
        · exact mem_cons_of_mem _ hother
      · intro other hunseen
        by_cases heq : other = mail
        · subst heq
          simp at hunseen
        · simpa [update_of_ne heq] using hunseen
      · intro other hother hfree hunseen
        rcases mem_cons.mp hother with rfl | hother
        · simp at hunseen
        · exact absurd hother (hfree _ rfl)
    · cases hstep
  | ends poller =>
    rw [Replies.step] at hstep
    split at hstep
    · rename_i hpoll
      obtain rfl := some.inj hstep
      exact h.sets_none hpoll nofun
    · cases hstep
  | isCut poller =>
    rw [Replies.step] at hstep
    split at hstep
    · rename_i poll hpoll
      obtain rfl := some.inj hstep
      exact h.sets_none hpoll (hguard poll hpoll)
    · cases hstep

/-- **Each mail is answered once** in every run in which no search finds what another poll has
found, and no poll is cut off between an answer and the mark. -/
theorem once_of_reachesWhen (h : (replyPolls env).ReachesWhen Guarded s) : Once s := by
  have hsound : Sound s :=
    h.invariant (fun _ hinit => sound_of_init hinit) fun _ _ _ hsound hguard hstep =>
      hsound.step hguard hstep
  exact hsound.isOnce

/-! ### One answer -/

def sampleReplyEnv : ReplyEnv := ⟨Signing.sample, id⟩

def answerMail : ReplyMail where
  sender := some "ada@example.org"
  addresses := ["inbox+".toList ++ Signing.sample.replyToken Signing.namedThread Signing.newYear ++
    "@example.org".toList]
  body := some ⟨"Yes.", false⟩
  hadAttachments := false

def oneAnswer : State := ⟨[answerMail], fun _ => false, fun _ => none, [], []⟩

def answeredPage : ThreadPlace := ⟨"page", "workspace"⟩

def answerInput : ReplyInput where
  docId := "page"
  pageId := "page"
  workspaceId := "workspace"
  threadId := Signing.namedThread.threadId
  authorId := Signing.namedThread.userId
  text := "Yes."
  internal := false
  trimmed := false
  hadAttachments := false

theorem handle_answerMail :
    handle sampleReplyEnv Signing.newYear answerMail (some answeredPage) true =
    .post answerInput := by
  decide +kernel

/-- A poll that posts the answer and marks it. -/
theorem once_of_reachesWhen_oneAnswer : Once
    { oneAnswer.sets 0 (some ⟨none, []⟩) with
      posted := [(0, answerInput)]
      seen := Function.update oneAnswer.seen 0 true } := by
  have hinit : (replyPolls sampleReplyEnv).init oneAnswer := ⟨rfl, rfl, rfl⟩
  have hguard : Guarded oneAnswer (.starts 0) := by
    intro other poll hpoll
    cases hpoll
  have hstart : (replyPolls sampleReplyEnv).ReachesWhen Guarded
      (oneAnswer.sets 0 (some ⟨none, [0]⟩)) :=
    (Machine.ReachesWhen.start hinit).next hguard rfl
  have hread : (replyPolls sampleReplyEnv).ReachesWhen Guarded
      ((oneAnswer.sets 0 (some ⟨none, [0]⟩)).sets 0
        (some (Poll.takes 0 [] (handle sampleReplyEnv Signing.newYear answerMail
          (some answeredPage) true)))) :=
    hstart.next (e := .reads 0 Signing.newYear (some answeredPage) true) trivial rfl
  rw [handle_answerMail] at hread
  have hwritten := hread.next (show Guarded _ (.writes 0 true) from trivial) rfl
  have hprojected := hwritten.next (show Guarded _ (.projects 0) from trivial) rfl
  have hmarked := hprojected.next (show Guarded _ (.marks 0) from trivial) rfl
  have honce := once_of_reachesWhen hmarked
  exact honce

/-- **An answer can be posted twice, and be refused twice**: the poll is cut off before it marks
the mail, and the next one finds it unread. -/
theorem not_once_oneAnswer :
    ¬ (∀ env s, (replyPolls env).Reaches s →
      ∀ mail, (s.posted.countP fun posted => posted.1 = mail) ≤ 1) ∧
    ¬ ∀ env s, (replyPolls env).Reaches s →
      ∀ mail, (s.refused.countP fun refused => refused.1 = mail) ≤ 1 := by
  constructor
  · intro hall
    obtain ⟨s, hreach, htwice⟩ := @Machine.exists_reachesWhen_of_runWhen State Event
      (replyPolls sampleReplyEnv) (fun _ _ => True) oneAnswer _
      [.starts 0, .reads 0 Signing.newYear (some answeredPage) true, .writes 0 true, .isCut 0,
        .starts 0, .reads 0 Signing.newYear (some answeredPage) true, .writes 0 true]
      (fun s => (s.posted.countP fun posted => posted.1 = 0) = 2) _ ⟨rfl, rfl, rfl⟩
      (by decide +kernel)
    have hle := hall sampleReplyEnv s hreach 0
    omega
  · intro hall
    obtain ⟨s, hreach, htwice⟩ := @Machine.exists_reachesWhen_of_runWhen State Event
      (replyPolls sampleReplyEnv) (fun _ _ => True) oneAnswer _
      [.starts 0, .reads 0 Signing.newYear none true, .refuses 0 true, .isCut 0,
        .starts 0, .reads 0 Signing.newYear none true, .refuses 0 true]
      (fun s => (s.refused.countP fun refused => refused.1 = 0) = 2) _ ⟨rfl, rfl, rfl⟩
      (by decide +kernel)
    have hle := hall sampleReplyEnv s hreach 0
    omega

end Replies

end Sone
