import Sone.Transition.Machine
import Mathlib.Algebra.Order.Group.Nat
import Mathlib.Data.List.Count

/-!
# How often a password may be wrong

`recentFailures` and `recordAttempt` of `auth/session.ts`, as `login` and the second step of signing
in (`http/auth.ts`) use them. A request counts the failures of the last fifteen minutes, and is
refused from ten on; else its password, or its code, is looked at, and a wrong one is recorded
afterwards. Any number of requests for one account do so at once (`signingIn`), each statement of
each when it comes to it.

A request does not count those that were let through and are not recorded yet.
`limitKept_of_reachesWhen`: that is the only way in which more than ten are answered as wrong in
fifteen minutes without a sign-in. What is wrong in such a window and what is under way are ten
together at most, which is the invariant.
-/

namespace Sone

open List

namespace AttemptRun

/-- Where an account signs in: with its password, or with a code after it. -/
inductive Door where
  | login
  | second
  deriving DecidableEq

/-- `auth_attempts`, of the key of one account. -/
structure Attempt where
  /-- `attempted_at`, in milliseconds. -/
  attemptedAt : ℕ
  succeeded : Bool
  deriving DecidableEq

inductive Answer where
  | rateLimited
  | wrong
  | signedIn
  deriving DecidableEq

/-- What a request comes to next. -/
inductive Stage where
  /-- `recentFailures` -/
  | counting
  /-- `verifyPassword` or `checkSecondFactor` -/
  | checking
  /-- `recordAttempt` of a failure. -/
  | recording
  /-- `clearAttempts` -/
  | clearing
  /-- `recordAttempt` of a success. -/
  | closing
  | answered (answer : Answer)
  deriving DecidableEq

/-- `LOGIN_ATTEMPT_LIMIT` -/
def loginAttemptLimit : ℕ := 10

/-- `LOGIN_ATTEMPT_WINDOW_MINUTES`, in milliseconds. -/
def loginAttemptWindow : ℕ := 15 * 60000

/-- How long `pruneAuthTables` leaves an attempt. -/
def attemptRetention : ℕ := 24 * 3600000

def recentFailures (now : ℕ) (attempts : List Attempt) : ℕ :=
  attempts.countP fun attempt =>
    attempt.succeeded = false ∧ now < attempt.attemptedAt + loginAttemptWindow

end AttemptRun

open AttemptRun in
/-- **The attempts of an account and the requests for it**, with when one was answered as wrong,
and when one signed in: from then on its failures are cleared. -/
structure AttemptRun where
  now : ℕ
  attempts : List Attempt
  requests : List Stage
  wrong : List ℕ
  signIns : List ℕ

namespace AttemptRun

/-- What may happen. A request is named by its place. -/
inductive Event where
  | tick (ms : ℕ)
  | arrives
  | counts (request : ℕ)
  /-- The password or the code is looked at, and is right or not. -/
  | checks (request : ℕ) (isRight : Bool)
  | records (request : ℕ)
  | clears (request : ℕ)
  | closes (request : ℕ)
  /-- `pruneAuthTables` -/
  | prunes
  deriving DecidableEq

def sets (s : AttemptRun) (request : ℕ) (stage : Stage) : AttemptRun :=
  { s with requests := s.requests.set request stage }

/-- The state after an event, or `none` where it cannot happen. -/
def step (door : Door) (s : AttemptRun) : Event → Option AttemptRun
  | .tick ms => some { s with now := s.now + ms }
  | .arrives => some { s with requests := s.requests ++ [.counting] }
  | .counts request =>
    if s.requests[request]? = some .counting then
      if recentFailures s.now s.attempts ≥ loginAttemptLimit then
        some (s.sets request (.answered .rateLimited))
      else some (s.sets request .checking)
    else none
  | .checks request isRight =>
    if s.requests[request]? = some .checking then
      match isRight, door with
      | false, _ => some (s.sets request .recording)
      | true, .login => some (s.sets request .clearing)
      -- the second step clears nothing and records no success
      | true, .second =>
        some { s.sets request (.answered .signedIn) with signIns := s.now :: s.signIns }
    else none
  | .records request =>
    if s.requests[request]? = some .recording then
      some { s.sets request (.answered .wrong) with
        attempts := ⟨s.now, false⟩ :: s.attempts, wrong := s.now :: s.wrong }
    else none
  | .clears request =>
    if s.requests[request]? = some .clearing then
      some { s.sets request .closing with
        attempts := s.attempts.filter (·.succeeded), signIns := s.now :: s.signIns }
    else none
  | .closes request =>
    if s.requests[request]? = some .closing then
      some { s.sets request (.answered .signedIn) with attempts := ⟨s.now, true⟩ :: s.attempts }
    else none
  | .prunes => some { s with
      attempts := s.attempts.filter fun attempt =>
        !decide (attempt.attemptedAt + attemptRetention < s.now) }

end AttemptRun

open AttemptRun in
/-- **The machine of sign-ins** for one account, at one of the doors, whatever was recorded
before. -/
def signingIn (door : Door) : Machine AttemptRun Event where
  init s := s.requests = [] ∧ s.wrong = [] ∧ s.signIns = []
  step := step door

namespace AttemptRun

variable {door : Door} {s s' : AttemptRun} {request : ℕ}

/-- The time is in the window that begins with another. -/
def IsWithin (start time : ℕ) : Prop := start ≤ time ∧ time < start + loginAttemptWindow
  deriving Decidable

def NoSignIn (s : AttemptRun) (start : ℕ) : Prop := ∀ time ∈ s.signIns, ¬IsWithin start time

/-- How many were answered as wrong in a window. -/
def wrongIn (s : AttemptRun) (start : ℕ) : ℕ := s.wrong.countP fun time => IsWithin start time

/-- **The limit is kept.** In no window without a sign-in are more than ten answered as wrong; and
once there are ten, no password is about to be looked at, and who comes to be counted in that window
is refused. -/
structure Kept (door : Door) (s : AttemptRun) : Prop where
  bounded : ∀ start, s.NoSignIn start → s.wrongIn start ≤ loginAttemptLimit
  refused : ∀ start, s.NoSignIn start → IsWithin start s.now →
    loginAttemptLimit ≤ s.wrongIn start → .checking ∉ s.requests ∧
      ∀ request s', step door s (.counts request) = some s' →
        s'.requests[request]? = some (.answered .rateLimited)

/-- Whether a request was let through and may yet be answered as wrong. -/
def Stage.isUnderway : Stage → Bool
  | checking | recording => true
  | counting | clearing | closing | answered _ => false

def underway (s : AttemptRun) : ℕ := s.requests.countP Stage.isUnderway

/-- The step that a run is to be without: a request is let through although the failures that it
counts, and the requests that are under way, are ten. -/
def Overruns (s : AttemptRun) : Event → Prop
  | .counts request => s.requests[request]? = some .counting ∧
      recentFailures s.now s.attempts < loginAttemptLimit ∧
      loginAttemptLimit ≤ recentFailures s.now s.attempts + s.underway
  | .tick _ | .arrives | .checks .. | .records _ | .clears _ | .closes _ | .prunes => False

instance (s : AttemptRun) (event : Event) : Decidable (s.Overruns event) :=
  match event with
  | .counts _ => inferInstanceAs (Decidable (_ ∧ _ ∧ _))
  | .tick _ | .arrives | .checks .. | .records _ | .clears _ | .closes _ | .prunes =>
    isFalse fun h => h

/-! ### The invariant -/

/-- **The invariant.** A wrong one since the last sign-in is in the table; and what is wrong in a
window, and what is under way while it lasts, are ten together at most. -/
structure Inv (s : AttemptRun) : Prop where
  past : (∀ time ∈ s.wrong, time ≤ s.now) ∧ ∀ time ∈ s.signIns, time ≤ s.now
  counted : ∀ start, s.now < start + loginAttemptWindow → (∀ time ∈ s.signIns, time < start) →
    s.wrong.countP (fun time => start ≤ time) ≤
      s.attempts.countP fun attempt => attempt.succeeded = false ∧ start ≤ attempt.attemptedAt
  bounded : ∀ start, s.NoSignIn start →
    s.wrongIn start ≤ loginAttemptLimit ∧ (s.now < start + loginAttemptWindow →
      s.wrongIn start + s.underway ≤ loginAttemptLimit)

theorem Inv.lt_of_noSignIn (h : Inv s) {start : ℕ} (hnone : s.NoSignIn start)
    (hnow : s.now < start + loginAttemptWindow) : ∀ time ∈ s.signIns, time < start := by
  intro time htime
  have hpast := h.past.2 time htime
  have hnot := hnone time htime
  simp only [IsWithin] at hnot
  omega

theorem Inv.wrongIn_le (h : Inv s) {start : ℕ} (hnone : s.NoSignIn start)
    (hnow : s.now < start + loginAttemptWindow) :
    s.wrongIn start ≤ recentFailures s.now s.attempts := by
  calc s.wrongIn start
      ≤ s.wrong.countP (fun time => start ≤ time) :=
        countP_mono_left fun time _ hwithin =>
          decide_eq_true (of_decide_eq_true hwithin : IsWithin start time).1
    _ ≤ s.attempts.countP fun attempt =>
          attempt.succeeded = false ∧ start ≤ attempt.attemptedAt :=
        h.counted start hnow (h.lt_of_noSignIn hnone hnow)
    _ ≤ recentFailures s.now s.attempts := by
        refine countP_mono_left fun attempt _ hattempt => ?_
        simp only [decide_eq_true_eq] at hattempt ⊢
        exact ⟨hattempt.1, by omega⟩

theorem underway_set {stage stage' : Stage} (h : s.requests[request]? = some stage) :
    (s.sets request stage').underway + (if stage.isUnderway then 1 else 0) =
      s.underway + if stage'.isUnderway then 1 else 0 := by
  obtain ⟨hlt, hstage⟩ := List.getElem?_eq_some_iff.mp h
  have hle := boole_getElem_le_countP (p := Stage.isUnderway) hlt
  rw [underway, underway, sets, countP_set hlt, hstage]
  rw [hstage] at hle
  omega

def failuresFrom (s : AttemptRun) (start : ℕ) : ℕ :=
  s.attempts.countP fun attempt => attempt.succeeded = false ∧ start ≤ attempt.attemptedAt

theorem Inv.relax (h : Inv s) (hnow : s.now ≤ s'.now) (hwrong : s'.wrong = s.wrong)
    (hsignIns : s'.signIns = s.signIns)
    (hattempts : ∀ start, s'.now < start + loginAttemptWindow →
      s.failuresFrom start ≤ s'.failuresFrom start)
    (hunderway : s'.underway ≤ s.underway) : Inv s' := by
  refine ⟨⟨?_, ?_⟩, fun start hwithin hbefore => ?_, fun start hnone => ?_⟩
  · rw [hwrong]
    exact fun time htime => (h.past.1 time htime).trans hnow
  · rw [hsignIns]
    exact fun time htime => (h.past.2 time htime).trans hnow
  · rw [hwrong]
    rw [hsignIns] at hbefore
    exact (h.counted start (by omega) hbefore).trans (hattempts start hwithin)
  · rw [NoSignIn, hsignIns] at hnone
    have hbounded := h.bounded start hnone
    rw [wrongIn, hwrong]
    refine ⟨hbounded.1, fun hwithin => ?_⟩
    have hsum := hbounded.2 (by omega)
    rw [wrongIn] at hsum
    omega

theorem Inv.signsIn (h : Inv s) (hnow : s'.now = s.now) (hwrong : s'.wrong = s.wrong)
    (hsignIns : s'.signIns = s.now :: s.signIns) (hunderway : s'.underway ≤ s.underway) :
    Inv s' := by
  refine ⟨⟨?_, ?_⟩, fun start _ hbefore => ?_, fun start hnone => ?_⟩
  · rw [hwrong, hnow]
    exact h.past.1
  · rw [hsignIns, hnow]
    exact forall_mem_cons.mpr ⟨le_rfl, h.past.2⟩
  · -- nothing was wrong after the sign-in
    rw [hsignIns] at hbefore
    have hafter := hbefore s.now mem_cons_self
    rw [hwrong, countP_eq_zero.mpr]
    · exact Nat.zero_le _
    · intro time htime
      have hpast := h.past.1 time htime
      simp only [decide_eq_true_eq]
      omega
  · rw [NoSignIn, hsignIns] at hnone
    have hbounded := h.bounded start fun time htime => hnone time (mem_cons_of_mem _ htime)
    rw [wrongIn, hwrong]
    refine ⟨hbounded.1, fun hwithin => ?_⟩
    have hsum := hbounded.2 (by omega)
    rw [wrongIn] at hsum
    omega

theorem Inv.admits (h : Inv s) (hstage : s.requests[request]? = some .counting)
    (hfree : recentFailures s.now s.attempts + s.underway < loginAttemptLimit) :
    Inv (s.sets request .checking) := by
  have hunderway : (s.sets request .checking).underway = s.underway + 1 := underway_set hstage
  refine ⟨h.past, h.counted, fun start hnone => ?_⟩
  refine ⟨(h.bounded start hnone).1, fun hwithin => ?_⟩
  have hwrong := h.wrongIn_le hnone hwithin
  rw [hunderway]
  change s.wrongIn start + _ ≤ _
  omega

theorem Inv.records (h : Inv s) (hstage : s.requests[request]? = some .recording) :
    Inv { s.sets request (.answered .wrong) with
      attempts := ⟨s.now, false⟩ :: s.attempts, wrong := s.now :: s.wrong } := by
  have hunderway : (s.sets request (.answered .wrong)).underway + 1 = s.underway :=
    underway_set hstage
  refine ⟨⟨forall_mem_cons.mpr ⟨le_rfl, h.past.1⟩, h.past.2⟩, fun start hwithin hbefore => ?_,
    fun start hnone => ?_⟩
  · have hcounted := h.counted start hwithin hbefore
    simp only [countP_cons, true_and]
    exact Nat.add_le_add_right hcounted _
  · have hbounded := h.bounded start hnone
    change List.countP _ (s.now :: s.wrong) ≤ _ ∧ (_ → List.countP _ (s.now :: s.wrong) +
      (s.sets request (.answered .wrong)).underway ≤ _)
    rw [wrongIn] at hbounded
    rw [countP_cons]
    have hin : IsWithin start s.now → s.now < start + loginAttemptWindow := And.right
    have hsum := hbounded.2
    split_ifs with hwithin
    · have := hsum (hin (of_decide_eq_true hwithin))
      refine ⟨by omega, fun _ => by omega⟩
    · refine ⟨hbounded.1, fun hlasts => ?_⟩
      have := hsum hlasts
      omega

theorem Inv.prune (h : Inv s) : Inv { s with
    attempts := s.attempts.filter fun attempt =>
      !decide (attempt.attemptedAt + attemptRetention < s.now) } := by
  refine h.relax le_rfl rfl rfl (fun start hwithin => ?_) le_rfl
  rw [failuresFrom, failuresFrom, countP_filter]
  refine countP_mono_left fun attempt _ hattempt => ?_
  have hday : loginAttemptWindow ≤ attemptRetention := by decide
  simp only [decide_eq_true_eq] at hattempt
  simp only [hattempt, Bool.and_eq_true, decide_eq_true_eq, Bool.not_eq_true',
    decide_eq_false_iff_not, true_and]
  change s.now < start + loginAttemptWindow at hwithin
  omega

/-- **A step** with which no request overruns the limit keeps the invariant. -/
theorem Inv.step (h : Inv s) {event : Event} (hfree : ¬s.Overruns event)
    (hstep : step door s event = some s') : Inv s' := by
  have hsets : ∀ request stage stage', s.requests[request]? = some stage →
      (stage'.isUnderway = true → stage.isUnderway = true) →
      (s.sets request stage').underway ≤ s.underway := by
    intro request stage stage' hstage hle
    have hset := @underway_set s request stage stage' hstage
    by_cases hnew : stage'.isUnderway = true
    · rw [if_pos hnew, if_pos (hle hnew)] at hset
      omega
    · rw [if_neg hnew] at hset
      omega
  rcases event with ms | _ | request | ⟨request, isRight⟩ | request | request | request | _
  · obtain rfl := Option.some.inj hstep
    exact h.relax (Nat.le_add_right _ _) rfl rfl (fun _ _ => le_rfl) le_rfl
  · obtain rfl := Option.some.inj hstep
    refine h.relax le_rfl rfl rfl (fun _ _ => le_rfl) ?_
    simp [underway, countP_append, Stage.isUnderway]
  · simp only [AttemptRun.step] at hstep
    split_ifs at hstep with hstage hlimit
    · obtain rfl := Option.some.inj hstep
      exact h.relax le_rfl rfl rfl (fun _ _ => le_rfl) (hsets _ _ _ hstage nofun)
    · obtain rfl := Option.some.inj hstep
      refine h.admits hstage ?_
      by_contra hover
      exact hfree ⟨hstage, by omega, by omega⟩
  · simp only [AttemptRun.step] at hstep
    split_ifs at hstep with hstage
    split at hstep
    · obtain rfl := Option.some.inj hstep
      exact h.relax le_rfl rfl rfl (fun _ _ => le_rfl) (hsets _ _ _ hstage fun _ => rfl)
    · obtain rfl := Option.some.inj hstep
      exact h.relax le_rfl rfl rfl (fun _ _ => le_rfl) (hsets _ _ _ hstage nofun)
    · obtain rfl := Option.some.inj hstep
      exact h.signsIn rfl rfl rfl (hsets _ _ _ hstage nofun)
  · simp only [AttemptRun.step] at hstep
    split_ifs at hstep with hstage
    obtain rfl := Option.some.inj hstep
    exact h.records hstage
  · simp only [AttemptRun.step] at hstep
    split_ifs at hstep with hstage
    obtain rfl := Option.some.inj hstep
    exact h.signsIn rfl rfl rfl (hsets _ _ _ hstage nofun)
  · simp only [AttemptRun.step] at hstep
    split_ifs at hstep with hstage
    obtain rfl := Option.some.inj hstep
    refine h.relax le_rfl rfl rfl (fun start _ => ?_) (hsets _ _ _ hstage nofun)
    simp [failuresFrom]
  · obtain rfl := Option.some.inj hstep
    exact h.prune

theorem Inv.kept (h : Inv s) : Kept door s := by
  refine ⟨fun start hnone => (h.bounded start hnone).1, fun start hnone hnow hmany => ⟨?_, ?_⟩⟩
  · intro hmem
    have hpos : 0 < s.underway := countP_pos_iff.mpr ⟨_, hmem, rfl⟩
    have hsum := (h.bounded start hnone).2 hnow.2
    omega
  · intro request s' hstep
    have hrecent := h.wrongIn_le hnone hnow.2
    simp only [AttemptRun.step] at hstep
    split_ifs at hstep with hstage hlimit
    · obtain rfl := Option.some.inj hstep
      obtain ⟨hlt, -⟩ := List.getElem?_eq_some_iff.mp hstage
      exact List.getElem?_set_self hlt
    · omega

/-- **When the limit is kept.** In every run in which no request is let through while the failures
it counts, and those under way, are ten, it is kept in every state. -/
theorem limitKept_of_reachesWhen (h : (signingIn door).ReachesWhen (fun s e => ¬s.Overruns e) s) :
    Kept door s := by
  refine (h.invariant (fun s hinit => ?_) fun s e s' hinv hfree hstep =>
    hinv.step hfree hstep : Inv s).kept
  obtain ⟨hrequests, hwrong, hsignIns⟩ := hinit
  refine ⟨?_, ?_, ?_⟩
  all_goals simp [wrongIn, underway, hrequests, hwrong, hsignIns]

/-! ### Eleven at once -/

def noAttempts : AttemptRun where
  now := 0
  attempts := []
  requests := []
  wrong := []
  signIns := []

/-- So many requests come together, and each has a wrong password. -/
def guesses (count : ℕ) : List Event :=
  List.replicate count .arrives ++ (List.range count).map .counts ++
    (List.range count).map (.checks · false) ++ (List.range count).map .records

/-- **Eleven guesses at once** are all looked at, and all answered as wrong. -/
theorem not_kept_guesses : ¬∀ door s, (signingIn door).Reaches s → Kept door s := by
  intro hall
  have hreach : ∃ s, (signingIn .login).Reaches s ∧ s.signIns = [] ∧ s.wrongIn 0 = 11 :=
    Machine.exists_reachesWhen_of_runWhen (guesses 11)
      (⟨rfl, rfl, rfl⟩ : (signingIn .login).init noAttempts) (by decide +kernel)
  obtain ⟨s, hs, hnone, hwrong⟩ := hreach
  have hbounded := (hall _ s hs).bounded 0 fun time htime => by
    rw [hnone] at htime
    exact absurd htime not_mem_nil
  rw [hwrong] at hbounded
  exact absurd hbounded (by decide)

/-- The hypothesis can be met: ten guesses at once are ten, and the next one is refused. -/
theorem limitKept_of_reachesWhen_tenGuesses :
    ∃ s, (signingIn .second).ReachesWhen (fun s e => ¬s.Overruns e) s ∧ s.wrongIn 0 = 10 ∧
      s.requests[10]? = some (.answered .rateLimited) ∧ Kept .second s := by
  have hreach : ∃ s, (signingIn .second).ReachesWhen (fun s e => ¬s.Overruns e) s ∧
      s.wrongIn 0 = 10 ∧ s.requests[10]? = some (.answered .rateLimited) :=
    Machine.exists_reachesWhen_of_runWhen (guesses 10 ++ [.arrives, .counts 10])
      (⟨rfl, rfl, rfl⟩ : (signingIn .second).init noAttempts) (by decide +kernel)
  obtain ⟨s, hs, hwrong, hrefused⟩ := hreach
  exact ⟨s, hs, hwrong, hrefused, limitKept_of_reachesWhen hs⟩

end AttemptRun

end Sone
