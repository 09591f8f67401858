import Sone.Account.Rotation

/-!
# A password change is final

`Final` is what a change or reset promises from its commit until the next one: the stored
hash verifies exactly the new password, no session obtained with another password is live
except the one the change was asked to keep, no reset token has succeeded twice, and none
succeeded that was issued before an earlier success.

A login verifies the hash it read and writes later, in statements of their own, and nothing
makes it look again. `Overtakes` are the steps at which the promise goes wrong: a login that
read the hash before the last commit writes it anew or inserts its session (`IsStale`), and
a commit with a session or a token inserted after the statement that was to end it had
looked (`IsOvertaken`). `final_of_reachesWhen` is that it goes wrong nowhere else; the
invariant is `Inv`.
-/

namespace Sone

open List Option Function

namespace Credentials

variable {Key : Type} {env : RotationEnv Key} {s s' : Credentials Key} {tx : Rotating Key}

/-! ### What is promised, and the steps that break it -/

/-- **What a change or reset promises** until the next one. -/
structure Final [DecidableEq Key] (env : RotationEnv Key) (s : Credentials Key) : Prop where
  /-- The stored hash verifies exactly the new password. -/
  hash : ∀ current ∈ s.current, ∃ stored ∈ s.passwordHash, ∀ password,
    (verifyPassword env.toPasswordEnv password stored).valid = true ↔ env.Same password current
  /-- A live session was obtained with the new password, or is the one kept. -/
  sessions : ∀ current ∈ s.current, ∀ session ∈ s.sessions, s.IsLive env session →
    some session.id = s.kept ∨ env.Same session.password current
  /-- No token succeeded twice. -/
  once : (s.redeemed.map (·.tokenHash)).Nodup
  /-- No token succeeded after a reset that succeeded after it was issued. -/
  outdated : ∀ redemption ∈ s.redeemed, ¬ redemption.issued < redemption.before

/-- A login **is stale**: a change or reset to another password committed since it read the
hash. -/
def IsStale (env : RotationEnv Key) (s : Credentials Key) (password : String) (since : ℕ) :
    Prop :=
  since ≠ s.changes ∧ ∃ current ∈ s.current, ¬ env.Same password current

/-- A transaction **is overtaken**: since it ended the sessions, one was inserted with
another password, or since a reset looked for the other tokens, one was issued. -/
def IsOvertaken (env : RotationEnv Key) (s : Credentials Key) (tx : Rotating Key) : Prop :=
  (∃ session ∈ s.sessions, session.id ∉ tx.seenSessions ∧ session.revokedAt = none ∧
    some session.id ≠ tx.keeps ∧ ¬ env.Same session.password tx.newPassword) ∨
  tx.isReset = true ∧
    ∃ row ∈ s.resetTokens, row.tokenHash ∉ tx.seenTokens ∧ row.usedAt = none

/-- The steps at which the promise goes wrong: a stale login writes, or a transaction that
is overtaken commits. -/
def Overtakes (env : RotationEnv Key) (s : Credentials Key) : RotationEvent Key → Prop
  | .runs (.loginRehashes password _ since) _ _ _ => s.IsStale env password since
  | .runs (.loginInserts password since) _ _ _ => s.IsStale env password since
  | .proceeds => ∃ tx ∈ s.rotating, tx.next = .commit ∧ s.IsOvertaken env tx
  | _ => False

/-! ### The invariant -/

/-- What holds of a request, after so many changes and with the current password. A login
that is not stale holds the current password, or a hash of it. -/
def TaskInv (env : RotationEnv Key) (changes : ℕ) (current : Option String) :
    RotationTask Key → Prop
  | .loginVerifies _ passwordHash _ since => since ≤ changes ∧
      (since = changes → ∀ password ∈ current, ∃ stored ∈ passwordHash, env.Hashes stored password)
  | .loginRehashes password upgraded since => env.Hashes upgraded password ∧ since ≤ changes ∧
      (since = changes → ∀ other ∈ current, env.Same password other)
  | .loginInserts password since => since ≤ changes ∧
      (since = changes → ∀ other ∈ current, env.Same password other)
  | .changeUpdates newPassword hash _ _ => env.Hashes hash newPassword
  | _ => True

def IsUnused (s : Credentials Key) (tokenHash : String) : Prop :=
  ∃ row ∈ s.resetTokens, row.tokenHash = tokenHash ∧ row.usedAt = none

/-- What holds of the transaction that has the row of `users`. -/
structure TxInv (env : RotationEnv Key) (s : Credentials Key) (tx : Rotating Key) : Prop where
  hash : env.Hashes tx.hash tx.newPassword
  seenSessions : ∀ id ∈ tx.seenSessions, ∃ session ∈ s.sessions, session.id = id
  /-- A session it saw ends, or is kept. -/
  sessions : ∀ session ∈ s.sessions, session.id ∈ tx.seenSessions → session.revokedAt = none →
    session.id ∈ tx.ended ∨ some session.id = tx.keeps
  seenTokens : ∀ tokenHash ∈ tx.seenTokens, ∃ row ∈ s.resetTokens, row.tokenHash = tokenHash
  /-- An unused token it saw is marked, or waited for. -/
  tokens : ∀ row ∈ s.resetTokens, row.tokenHash ∈ tx.seenTokens → row.usedAt = none →
    row.tokenHash ∈ tx.marked ∨ ∃ found, tx.next = .otherTokens found ∧ row.tokenHash ∈ found
  /-- No other reset holds a token it has locked. -/
  locks : ∀ tokenHash, tx.Locks tokenHash → s.redeeming tokenHash = none
  /-- A reset's own token is unused until the commit, and marked by the first statement. -/
  reset : ∀ tokenHash, tx.request = .reset tokenHash → s.IsUnused tokenHash ∧
    (tx.next = .ownToken ∨ tokenHash ∈ tx.marked)

/-- **The invariant.** -/
structure Inv (env : RotationEnv Key) (s : Credentials Key) : Prop where
  hash : ∀ current ∈ s.current, ∃ stored ∈ s.passwordHash, env.Hashes stored current
  sessions : ∀ current ∈ s.current, ∀ session ∈ s.sessions, session.revokedAt = none →
    some session.id = s.kept ∨ env.Same session.password current
  tasks : ∀ task ∈ s.tasks, TaskInv env s.changes s.current task
  redeeming : ∀ tokenHash redeeming, s.redeeming tokenHash = some redeeming →
    env.Hashes redeeming.hash redeeming.newPassword ∧ s.IsUnused tokenHash
  rotating : ∀ tx ∈ s.rotating, s.TxInv env tx
  key : (s.resetTokens.map (·.tokenHash)).Nodup
  /-- A token that is still to be used was issued after the last reset. -/
  issued : ∀ row ∈ s.resetTokens, row.usedAt = none → row.issued = s.resets
  used : ∀ redemption ∈ s.redeemed, ∃ row ∈ s.resetTokens,
    row.tokenHash = redemption.tokenHash ∧ row.usedAt ≠ none
  once : (s.redeemed.map (·.tokenHash)).Nodup
  outdated : ∀ redemption ∈ s.redeemed, ¬ redemption.issued < redemption.before

/-! ### Requests that hold no lock -/

theorem Inv.setTasks (h : s.Inv env) {tasks : List (RotationTask Key)}
    (htasks : ∀ task ∈ tasks, TaskInv env s.changes s.current task) :
    Inv env { s with tasks } :=
  { h with
    tasks := htasks
    rotating := fun tx htx => { h.rotating tx htx with } }

theorem Inv.arrive (h : s.Inv env) {task : RotationTask Key}
    (htask : TaskInv env s.changes s.current task) : (s.arrive task).Inv env := by
  refine h.setTasks fun other hother => ?_
  rcases mem_append.mp hother with hold | hnew
  · exact h.tasks other hold
  · exact mem_singleton.mp hnew ▸ htask

theorem Inv.login (h : s.Inv env) (password : String) : (s.login password).Inv env :=
  h.arrive ⟨le_rfl, fun _ => h.hash⟩

theorem Inv.changePassword (h : s.Inv env) (currentPassword newPassword : String)
    (keepSessionId : Option Uuid) :
    (s.changePassword currentPassword newPassword keepSessionId).Inv env := by
  rw [Credentials.changePassword]
  split
  · exact h
  · exact h.arrive trivial

theorem Inv.issueReset (h : s.Inv env) (token : String) : (s.issueReset token).Inv env := by
  rw [Credentials.issueReset]
  split
  · exact h.arrive trivial
  · exact h

theorem Inv.rehash (h : s.Inv env) {upgraded : StoredHash Key}
    (hhash : ∀ current ∈ s.current, env.Hashes upgraded current) :
    Inv env { s with passwordHash := some upgraded } :=
  { h with
    hash := fun current hcurrent => ⟨upgraded, rfl, hhash current hcurrent⟩
    rotating := fun tx htx => { h.rotating tx htx with } }

theorem Inv.createSession (h : s.Inv env) {password : String} {id : Uuid} {token : String}
    (hfresh : ∀ session ∈ s.sessions, session.id ≠ id)
    (hsame : ∀ current ∈ s.current, env.Same password current) :
    (s.createSession env password id token).Inv env where
  hash := h.hash
  sessions := by
    intro current hcurrent session hsession hlive
    rcases mem_append.mp hsession with hold | hnew
    · exact h.sessions current hcurrent session hold hlive
    · obtain rfl := mem_singleton.mp hnew
      exact .inr (hsame current hcurrent)
  tasks := h.tasks
  redeeming := h.redeeming
  rotating := by
    intro tx htx
    have hinv := h.rotating tx htx
    refine { hinv with seenSessions := fun id hid => ?_, sessions := ?_ }
    · obtain ⟨session, hsession, heq⟩ := hinv.seenSessions id hid
      exact ⟨session, mem_append_left _ hsession, heq⟩
    · intro session hsession hseen hlive
      rcases mem_append.mp hsession with hold | hnew
      · exact hinv.sessions session hold hseen hlive
      · -- the id is one the transaction cannot have seen
        obtain rfl := mem_singleton.mp hnew
        obtain ⟨old, hold, heq⟩ := hinv.seenSessions _ hseen
        exact absurd heq (hfresh old hold)
  key := h.key
  issued := h.issued
  used := h.used
  once := h.once
  outdated := h.outdated

theorem IsUnused.insert {tokenHash : String} (h : s.IsUnused tokenHash) (row : ResetRow) :
    IsUnused { s with resetTokens := s.resetTokens ++ [row] } tokenHash := by
  obtain ⟨old, hold, heq⟩ := h
  exact ⟨old, mem_append_left _ hold, heq⟩

theorem Inv.insertToken (h : s.Inv env) {row : ResetRow}
    (hfresh : ∀ old ∈ s.resetTokens, old.tokenHash ≠ row.tokenHash)
    (hissued : row.issued = s.resets) :
    Inv env { s with resetTokens := s.resetTokens ++ [row] } where
  hash := h.hash
  sessions := h.sessions
  tasks := h.tasks
  redeeming := fun tokenHash redeeming hredeeming =>
    (h.redeeming tokenHash redeeming hredeeming).imp_right (·.insert row)
  rotating := by
    intro tx htx
    have hinv := h.rotating tx htx
    refine { hinv with seenTokens := fun tokenHash hseen => ?_, tokens := ?_, reset := ?_ }
    · obtain ⟨old, hold, heq⟩ := hinv.seenTokens tokenHash hseen
      exact ⟨old, mem_append_left _ hold, heq⟩
    · intro other hother hseen hunused
      rcases mem_append.mp hother with hold | hnew
      · exact hinv.tokens other hold hseen hunused
      · obtain rfl := mem_singleton.mp hnew
        obtain ⟨old, hold, heq⟩ := hinv.seenTokens _ hseen
        exact absurd heq (hfresh old hold)
    · exact fun tokenHash hrequest => (hinv.reset tokenHash hrequest).imp_left (·.insert row)
  key := by
    rw [map_append, nodup_append]
    refine ⟨h.key, by simp, fun tokenHash hold other hother => ?_⟩
    obtain ⟨old, hmem, rfl⟩ := List.mem_map.mp hold
    obtain rfl : other = row.tokenHash := by simpa using hother
    exact hfresh old hmem
  issued := by
    intro other hother hunused
    rcases mem_append.mp hother with hold | hnew
    · exact h.issued other hold hunused
    · exact mem_singleton.mp hnew ▸ hissued
  used := by
    intro redemption hredemption
    obtain ⟨old, hold, heq⟩ := h.used redemption hredemption
    exact ⟨old, mem_append_left _ hold, heq⟩
  once := h.once
  outdated := h.outdated

theorem findReset_ok {token newPassword : String} {began : Time} {found : ResetRow}
    (h : s.findReset env token newPassword began = .ok found) : s.IsUnused found.tokenHash := by
  rw [findReset] at h
  split at h
  · simp at h
  · rename_i row hrow
    split at h
    · simp at h
    split at h
    · simp at h
    · obtain rfl := Except.ok.inj h
      have hunused := List.find?_some hrow
      simp only [decide_eq_true_eq] at hunused
      exact ⟨_, List.mem_of_find?_eq_some hrow, rfl, hunused.2⟩

theorem Inv.lock (h : s.Inv env) {tokenHash : String} {redeeming : Redeeming Key}
    (hfree : ¬ s.IsLocked tokenHash) (hunused : s.IsUnused tokenHash)
    (hhash : env.Hashes redeeming.hash redeeming.newPassword) :
    Inv env { s with redeeming := Function.update s.redeeming tokenHash (some redeeming) } where
  hash := h.hash
  sessions := h.sessions
  tasks := h.tasks
  redeeming := by
    intro other redeeming' hother
    replace hother : Function.update s.redeeming tokenHash (some redeeming) other =
      some redeeming' := hother
    by_cases heq : other = tokenHash
    · subst heq
      rw [update_self, Option.some.injEq] at hother
      exact hother ▸ ⟨hhash, hunused⟩
    · rw [update_of_ne heq] at hother
      exact h.redeeming other redeeming' hother
  rotating := by
    intro tx htx
    have hinv := h.rotating tx htx
    refine { hinv with locks := fun other hlocks => ?_ }
    have hne : other ≠ tokenHash := by
      rintro rfl
      exact hfree (.inr ⟨tx, htx, hlocks⟩)
    simpa only [update_of_ne hne] using hinv.locks other hlocks
  key := h.key
  issued := h.issued
  used := h.used
  once := h.once
  outdated := h.outdated

theorem Inv.setRotating (h : s.Inv env) {rotating : Option (Rotating Key)}
    (hrotating : ∀ tx ∈ rotating, s.TxInv env tx) : Inv env { s with rotating } :=
  { h with rotating := fun tx htx => { hrotating tx htx with } }

theorem Inv.setTx (h : s.Inv env) (htx : s.TxInv env tx) : Inv env { s with rotating := some tx } :=
  h.setRotating fun _ hother => some.inj hother ▸ htx

theorem Inv.release (h : s.Inv env) (tokenHash : String) :
    Inv env { s with redeeming := Function.update s.redeeming tokenHash none } where
  hash := h.hash
  sessions := h.sessions
  tasks := h.tasks
  redeeming := by
    intro other redeeming hother
    replace hother : Function.update s.redeeming tokenHash none other = some redeeming := hother
    have hne : other ≠ tokenHash := by
      rintro rfl
      simp at hother
    rw [update_of_ne hne] at hother
    exact h.redeeming other redeeming hother
  rotating := by
    intro tx htx
    have hinv := h.rotating tx htx
    refine { hinv with locks := fun other hlocks => ?_ }
    by_cases heq : other = tokenHash
    · exact heq ▸ update_self ..
    · simpa only [update_of_ne heq] using hinv.locks other hlocks
  key := h.key
  issued := h.issued
  used := h.used
  once := h.once
  outdated := h.outdated

theorem same_of_not_isStale {password : String} {since : ℕ}
    (hsame : since = s.changes → ∀ current ∈ s.current, env.Same password current)
    (hok : ¬ s.IsStale env password since) : ∀ current ∈ s.current, env.Same password current := by
  intro current hcurrent
  by_cases hsince : since = s.changes
  · exact hsame hsince current hcurrent
  · by_contra hother
    exact hok ⟨hsince, current, hcurrent, hother⟩

/-- **A statement of a request that holds no lock.** -/
theorem Inv.run [DecidableEq Key] (h : s.Inv env) {task : RotationTask Key} {fresh : Uuid}
    {token : String} {salt : Salt} (htask : TaskInv env s.changes s.current task)
    (hok : ¬ s.Overtakes env (.runs task fresh token salt))
    (hrun : s.run env task fresh token salt = some s') : s'.Inv env := by
  cases task with
  | loginVerifies password passwordHash disabledAt since =>
    simp only [Credentials.run] at hrun
    split at hrun
    · rename_i hvalid
      rw [Bool.and_eq_true] at hvalid
      -- a hash of the current password was verified, so the password is the current one
      have hsame : since = s.changes → ∀ current ∈ s.current, env.Same password current := by
        intro hsince current hcurrent
        obtain ⟨stored, hstored, hhash⟩ := htask.2 hsince current hcurrent
        rw [mem_def.mp hstored, getD_some] at hvalid
        exact hhash.valid_iff.mp hvalid.1
      split at hrun
      · split at hrun
        · exact some.inj hrun ▸ h
        · rename_i upgraded hupgraded
          exact some.inj hrun ▸
            h.arrive ⟨PasswordEnv.hashes_of_hashPassword hupgraded, htask.1, hsame⟩
      · exact some.inj hrun ▸ h.arrive ⟨htask.1, hsame⟩
    · exact some.inj hrun ▸ h
  | loginRehashes password upgraded since =>
    simp only [Credentials.run, ite_none_right_eq_some, Option.some.injEq] at hrun
    obtain ⟨-, rfl⟩ := hrun
    have hsame := same_of_not_isStale htask.2.2 hok
    exact (h.rehash fun current hcurrent => htask.1.congr (hsame current hcurrent)).arrive htask.2
  | loginInserts password since =>
    simp only [Credentials.run, ite_none_right_eq_some, Option.some.injEq] at hrun
    obtain ⟨hfresh, rfl⟩ := hrun
    exact h.createSession hfresh (same_of_not_isStale htask.2 hok)
  | changeVerifies currentPassword newPassword keepSessionId passwordHash =>
    simp only [Credentials.run] at hrun
    split at hrun
    · split at hrun
      · exact some.inj hrun ▸ h
      · rename_i hash hhash
        exact some.inj hrun ▸ h.arrive (PasswordEnv.hashes_of_hashPassword hhash)
    · exact some.inj hrun ▸ h
  | changeUpdates newPassword hash keepSessionId began =>
    simp only [Credentials.run, ite_none_right_eq_some, Option.some.injEq] at hrun
    obtain ⟨-, rfl⟩ := hrun
    refine h.setTx ⟨htask, ?_, ?_, ?_, ?_, ?_, ?_⟩
    all_goals simp [Rotating.Locks]
  | issueInserts token =>
    simp only [Credentials.run, ite_none_right_eq_some, Option.some.injEq] at hrun
    obtain ⟨hfresh, rfl⟩ := hrun
    exact h.insertToken hfresh rfl
  | resetFinds token newPassword began =>
    simp only [Credentials.run] at hrun
    split at hrun
    · exact some.inj hrun ▸ h
    · simp only [ite_none_left_eq_some, Option.some.injEq] at hrun
      exact hrun.2 ▸ h
    · rename_i found hfound
      rw [ite_none_left_eq_some] at hrun
      obtain ⟨hfree, hrun⟩ := hrun
      split at hrun
      · exact some.inj hrun ▸ h
      · rename_i hash hhash
        exact some.inj hrun ▸
          h.lock hfree (findReset_ok hfound) (PasswordEnv.hashes_of_hashPassword hhash)

/-! ### The transaction that has the row -/

/-- A reset that holds its token gets the row of `users`. -/
theorem Inv.startReset (h : s.Inv env) {tokenHash : String}
    (hstart : s.startReset tokenHash = some s') : s'.Inv env := by
  rw [Credentials.startReset] at hstart
  split at hstart
  · rename_i redeeming hredeeming _
    obtain rfl := some.inj hstart
    obtain ⟨hhash, hunused⟩ := h.redeeming tokenHash redeeming hredeeming
    refine (h.release tokenHash).setTx ⟨hhash, ?_, ?_, ?_, ?_, ?_, ?_⟩
    · simp
    · simp
    · simp
    · simp
    · intro other hlocks
      obtain rfl : tokenHash = other := by simpa [Rotating.Locks] using hlocks
      exact update_self ..
    · intro other hrequest
      obtain rfl : tokenHash = other := by simpa using hrequest
      exact ⟨hunused, .inl rfl⟩
  · simp at hstart

theorem TxInv.ownToken (h : s.TxInv env tx) {tokenHash : String}
    (hrequest : tx.request = .reset tokenHash) (hnext : tx.next = .ownToken) :
    s.TxInv env { tx with marked := tx.marked ++ [tokenHash], next := .sessions } :=
  { h with
    tokens := by
      intro row hrow hseen hunused
      rcases h.tokens row hrow hseen hunused with hmarked | ⟨found, hfound, -⟩
      · exact .inl (mem_append_left _ hmarked)
      · simp [hnext] at hfound
    locks := by
      rintro other (hother | hmarked)
      · exact h.locks other (.inl hother)
      rcases mem_append.mp hmarked with hold | hnew
      · exact h.locks other (.inr hold)
      · exact mem_singleton.mp hnew ▸ h.locks tokenHash (.inl hrequest)
    reset := by
      intro other hother
      obtain rfl : tokenHash = other := by simpa [hrequest] using hother
      exact ⟨(h.reset tokenHash hrequest).1, .inr (mem_append_right _ (by simp))⟩ }

theorem TxInv.endSessions (h : s.TxInv env tx) {ended : List Uuid} {next : RotationStatement}
    (hended : ∀ session ∈ s.sessions, session.revokedAt = none →
      session.id ∈ ended ∨ some session.id = tx.keeps)
    (hnext : tx.next = .sessions) :
    s.TxInv env { tx with seenSessions := s.sessions.map (·.id), ended, next } :=
  { h with
    seenSessions := fun id hid => List.mem_map.mp hid
    sessions := fun session hsession _ hlive => hended session hsession hlive
    tokens := by
      intro row hrow hseen hunused
      rcases h.tokens row hrow hseen hunused with hmarked | ⟨found, hfound, -⟩
      · exact .inl hmarked
      · simp [hnext] at hfound
    reset := by
      intro tokenHash hrequest
      obtain ⟨hunused, hmarked⟩ := h.reset tokenHash hrequest
      exact ⟨hunused, .inr (hmarked.resolve_left (by simp [hnext]))⟩ }

theorem TxInv.scan (h : s.TxInv env tx) (hnext : tx.next = .scan) :
    s.TxInv env { tx with
      seenTokens := s.resetTokens.map (·.tokenHash)
      next := .otherTokens ((s.resetTokens.filter fun row =>
        row.usedAt = none ∧ row.tokenHash ∉ tx.marked).map (·.tokenHash)) } :=
  { h with
    seenTokens := fun tokenHash hseen => List.mem_map.mp hseen
    tokens := by
      intro row hrow _ hunused
      by_cases hmarked : row.tokenHash ∈ tx.marked
      · exact .inl hmarked
      · refine .inr ⟨_, rfl, List.mem_map_of_mem ?_⟩
        simpa [hrow, hunused] using hmarked
    reset := by
      intro tokenHash hrequest
      obtain ⟨hunused, hmarked⟩ := h.reset tokenHash hrequest
      exact ⟨hunused, .inr (hmarked.resolve_left (by simp [hnext]))⟩ }

theorem TxInv.otherTokens (h : s.TxInv env tx) {found : List String}
    (hnext : tx.next = .otherTokens found)
    (hfree : ∀ tokenHash ∈ found, (s.redeeming tokenHash).isNone) :
    s.TxInv env { tx with
      marked := tx.marked ++ (s.resetTokens.filter fun row =>
        row.tokenHash ∈ found ∧ row.usedAt = none).map (·.tokenHash)
      next := .commit } :=
  { h with
    tokens := by
      intro row hrow hseen hunused
      left
      rcases h.tokens row hrow hseen hunused with hmarked | ⟨found', hfound, hmem⟩
      · exact mem_append_left _ hmarked
      · obtain rfl : found = found' := by simpa [hnext] using hfound
        refine mem_append_right _ (List.mem_map_of_mem ?_)
        simp [hrow, hmem, hunused]
    locks := by
      rintro other (hother | hmarked)
      · exact h.locks other (.inl hother)
      rcases mem_append.mp hmarked with hold | hnew
      · exact h.locks other (.inr hold)
      · obtain ⟨row, hrow, rfl⟩ := List.mem_map.mp hnew
        have hfound := (of_decide_eq_true (mem_filter.mp hrow).2).1
        exact isNone_iff_eq_none.mp (hfree _ hfound)
    reset := by
      intro tokenHash hrequest
      obtain ⟨hunused, hmarked⟩ := h.reset tokenHash hrequest
      exact ⟨hunused, .inr (mem_append_left _ (hmarked.resolve_left (by simp [hnext])))⟩ }

/-- **The next statement of the transaction**, before its commit. -/
theorem Inv.proceed (h : s.Inv env) (htx : s.TxInv env tx) (hnext : tx.next ≠ .commit)
    (hproceed : s.proceed tx = some s') : s'.Inv env := by
  rw [Credentials.proceed] at hproceed
  split at hproceed
  · simp at hproceed
  · rename_i tokenHash hown hrequest
    exact some.inj hproceed ▸ h.setTx (htx.ownToken hrequest hown)
  · rename_i keepSessionId hsessions hrequest
    refine some.inj hproceed ▸ h.setTx (htx.endSessions ?_ hsessions)
    intro session hsession hlive
    rw [Rotating.keeps, hrequest]
    by_cases hkept : some session.id = keepSessionId
    · exact .inr hkept
    · refine .inl (List.mem_map_of_mem ?_)
      simpa [hsession, hlive] using hkept
  · rename_i tokenHash hsessions hrequest
    exact some.inj hproceed ▸
      h.setTx (htx.endSessions (fun session hsession _ => .inl (List.mem_map_of_mem hsession))
        hsessions)
  · rename_i hscan
    exact some.inj hproceed ▸ h.setTx (htx.scan hscan)
  · rename_i found hother
    rw [ite_none_right_eq_some] at hproceed
    obtain ⟨hfree, hproceed⟩ := hproceed
    exact some.inj hproceed ▸ h.setTx (htx.otherTokens hother hfree)
  · rename_i hcommit
    exact absurd hcommit hnext

/-! ### The commit -/

theorem TaskInv.commit {changes : ℕ} {current current' : Option String}
    {task : RotationTask Key} (h : TaskInv env changes current task) :
    TaskInv env (changes + 1) current' task := by
  have hstale : ∀ {since : ℕ}, since ≤ changes → since ≠ changes + 1 := by omega
  cases task with
  | loginVerifies password passwordHash disabledAt since =>
    exact ⟨by have := h.1; omega, fun hsince => absurd hsince (hstale h.1)⟩
  | loginRehashes password upgraded since =>
    exact ⟨h.1, by have := h.2.1; omega, fun hsince => absurd hsince (hstale h.2.1)⟩
  | loginInserts password since =>
    exact ⟨by have := h.1; omega, fun hsince => absurd hsince (hstale h.1)⟩
  | changeVerifies | issueInserts | resetFinds => trivial
  | changeUpdates => exact h

theorem TxInv.same_of_not_ended (htx : s.TxInv env tx) (hok : ¬ s.IsOvertaken env tx)
    {session : SignedIn} (hsession : session ∈ s.sessions) (hlive : session.revokedAt = none)
    (hended : session.id ∉ tx.ended) :
    some session.id = tx.keeps ∨ env.Same session.password tx.newPassword := by
  by_cases hseen : session.id ∈ tx.seenSessions
  · exact .inl ((htx.sessions session hsession hseen hlive).resolve_left hended)
  · by_contra hother
    rw [not_or] at hother
    exact hok (.inl ⟨session, hsession, hseen, hlive, hother.1, hother.2⟩)

theorem TxInv.mem_marked (htx : s.TxInv env tx) (hok : ¬ s.IsOvertaken env tx)
    (hnext : tx.next = .commit) {tokenHash : String} (hrequest : tx.request = .reset tokenHash)
    {row : ResetRow} (hrow : row ∈ s.resetTokens) (hunused : row.usedAt = none) :
    row.tokenHash ∈ tx.marked := by
  have hseen : row.tokenHash ∈ tx.seenTokens := by
    by_contra hnew
    exact hok (.inr ⟨by rw [Rotating.isReset, hrequest], row, hrow, hnew, hunused⟩)
  refine (htx.tokens row hrow hseen hunused).resolve_right ?_
  rintro ⟨found, hfound, -⟩
  simp [hnext] at hfound

theorem Inv.filter_eq (h : s.Inv env) {row : ResetRow} (hrow : row ∈ s.resetTokens) :
    (s.resetTokens.filter fun other => other.tokenHash = row.tokenHash) = [row] := by
  have hnodup : s.resetTokens.Nodup := h.key.of_map
  refine perm_singleton.mp ?_
  rw [perm_ext_iff_of_nodup (hnodup.filter _) (by simp)]
  intro other
  simp only [mem_filter, decide_eq_true_eq, mem_singleton]
  constructor
  · rintro ⟨hother, heq⟩
    exact inj_on_of_nodup_map h.key hother hrow heq
  · rintro rfl
    exact ⟨hrow, rfl⟩

section MarkUsed

variable {marked : List String} {now : Time}

theorem markUsed_tokenHash (row : ResetRow) :
    (if row.tokenHash ∈ marked then { row with usedAt := some now } else row).tokenHash =
      row.tokenHash := by
  split <;> rfl

theorem markUsed_usedAt_ne {row : ResetRow} (h : row.usedAt = none → row.tokenHash ∈ marked) :
    (if row.tokenHash ∈ marked then { row with usedAt := some now } else row).usedAt ≠ none := by
  split
  · simp
  · rename_i hunmarked
    exact fun hnone => hunmarked (h hnone)

end MarkUsed

theorem Inv.commitChange (h : s.Inv env) (htx : s.TxInv env tx) (hok : ¬ s.IsOvertaken env tx)
    {keepSessionId : Option Uuid} (hrequest : tx.request = .change keepSessionId) :
    (s.commit tx).Inv env := by
  simp only [Credentials.commit, hrequest]
  refine { h with
    hash := ?_, sessions := ?_, tasks := fun task htask => (h.tasks task htask).commit
    rotating := by simp }
  · rintro current ⟨⟩
    exact ⟨tx.hash, rfl, htx.hash⟩
  · rintro current ⟨⟩ session hsession hlive
    obtain ⟨old, hold, rfl⟩ := List.mem_map.mp hsession
    by_cases hended : old.id ∈ tx.ended
    · simp [hended] at hlive
    · simp only [hended, if_false] at hlive ⊢
      exact htx.same_of_not_ended hok hold hlive hended

/-- **A reset commits.** Its token was issued after the last one, and no token is left. -/
theorem Inv.commitReset (h : s.Inv env) (htx : s.TxInv env tx) (hok : ¬ s.IsOvertaken env tx)
    (hnext : tx.next = .commit) {tokenHash : String} (hrequest : tx.request = .reset tokenHash) :
    (s.commit tx).Inv env := by
  obtain ⟨⟨own, hown, rfl, hunused⟩, hmarked⟩ := htx.reset tokenHash hrequest
  replace hmarked : own.tokenHash ∈ tx.marked := hmarked.resolve_left (by simp [hnext])
  have hall : ∀ row ∈ s.resetTokens, row.usedAt = none → row.tokenHash ∈ tx.marked :=
    fun row hrow hnone => htx.mem_marked hok hnext hrequest hrow hnone
  have hissued : own.issued = s.resets := h.issued own hown hunused
  simp only [Credentials.commit, hrequest, h.filter_eq hown, map_cons, map_nil]
  constructor
  case hash =>
    rintro current ⟨⟩
    exact ⟨tx.hash, rfl, htx.hash⟩
  case sessions =>
    rintro current ⟨⟩ session hsession hlive
    obtain ⟨hold, hended⟩ := mem_filter.mp hsession
    exact htx.same_of_not_ended hok hold hlive (of_decide_eq_true hended)
  case tasks => exact fun task htask => (h.tasks task htask).commit
  case redeeming =>
    -- a token somebody else holds is unused, so it was marked, so nobody else holds it
    intro tokenHash redeeming hredeeming
    obtain ⟨-, row, hrow, rfl, hnone⟩ := h.redeeming tokenHash redeeming hredeeming
    have hfree := htx.locks row.tokenHash (.inr (hall row hrow hnone))
    exact absurd (hfree.symm.trans hredeeming) (by simp)
  case rotating => simp
  case key =>
    rw [List.map_map]
    refine (map_congr_left fun row _ => ?_) ▸ h.key
    exact (markUsed_tokenHash row).symm
  case issued =>
    intro row hrow hnone
    obtain ⟨old, hold, rfl⟩ := List.mem_map.mp hrow
    exact absurd hnone (markUsed_usedAt_ne (hall old hold))
  case used =>
    intro redemption hredemption
    rcases mem_append.mp hredemption with hold | hnew
    · obtain ⟨row, hrow, heq, hused⟩ := h.used redemption hold
      exact ⟨_, List.mem_map_of_mem hrow, (markUsed_tokenHash row).trans heq,
        markUsed_usedAt_ne fun hnone => absurd hnone hused⟩
    · obtain rfl := mem_singleton.mp hnew
      exact ⟨_, List.mem_map_of_mem hown, markUsed_tokenHash own,
        markUsed_usedAt_ne fun _ => hmarked⟩
  case once =>
    rw [map_append, nodup_append]
    refine ⟨h.once, by simp, fun tokenHash hold other hother => ?_⟩
    obtain ⟨redemption, hredemption, rfl⟩ := List.mem_map.mp hold
    obtain rfl : other = own.tokenHash := by simpa using hother
    obtain ⟨row, hrow, heq, hused⟩ := h.used redemption hredemption
    intro hsame
    exact hused (inj_on_of_nodup_map h.key hrow hown (heq.trans hsame) ▸ hunused)
  case outdated =>
    intro redemption hredemption
    rcases mem_append.mp hredemption with hold | hnew
    · exact h.outdated redemption hold
    · obtain rfl := mem_singleton.mp hnew
      simp [hissued]

/-! ### Runs -/

theorem Inv.step [DecidableEq Key] {e : RotationEvent Key} (h : s.Inv env)
    (hok : ¬ s.Overtakes env e) (hstep : (rotation env).step s e = some s') : s'.Inv env := by
  cases e with
  | tick elapsed =>
    obtain rfl := some.inj hstep
    exact { h with rotating := fun tx htx => { h.rotating tx htx with } }
  | login password => exact some.inj hstep ▸ h.login password
  | changePassword currentPassword newPassword keepSessionId =>
    exact some.inj hstep ▸ h.changePassword currentPassword newPassword keepSessionId
  | issueReset token => exact some.inj hstep ▸ h.issueReset token
  | redeemReset token newPassword => exact some.inj hstep ▸ h.arrive trivial
  | runs task fresh token salt =>
    simp only [rotation, Credentials.step, ite_none_right_eq_some] at hstep
    obtain ⟨htask, hrun⟩ := hstep
    have herased : Inv env { s with tasks := s.tasks.erase task } :=
      h.setTasks fun other hmem => h.tasks other (mem_of_mem_erase hmem)
    exact herased.run (h.tasks task htask) hok hrun
  | startReset tokenHash => exact h.startReset hstep
  | proceeds =>
    obtain ⟨tx, htx, hproceed⟩ := bind_eq_some_iff.mp hstep
    have hinv := h.rotating tx htx
    by_cases hnext : tx.next = .commit
    · have hovertaken : ¬ s.IsOvertaken env tx := fun hover => hok ⟨tx, htx, hnext, hover⟩
      obtain rfl : s.commit tx = s' := by simpa [Credentials.proceed, hnext] using hproceed
      cases hrequest : tx.request with
      | change keepSessionId => exact h.commitChange hinv hovertaken hrequest
      | reset tokenHash => exact h.commitReset hinv hovertaken hnext hrequest
    · exact h.proceed hinv hnext hproceed
  | fails task =>
    simp only [rotation, Credentials.step, ite_none_right_eq_some,
      Option.some.injEq] at hstep
    obtain ⟨-, rfl⟩ := hstep
    exact h.setTasks fun other hmem => h.tasks other (mem_of_mem_erase hmem)
  | abandons tokenHash => exact some.inj hstep ▸ h.release tokenHash
  | aborts => exact some.inj hstep ▸ h.setRotating (by simp)

theorem IsLive.revokedAt {session : SignedIn} (h : s.IsLive env session) :
    session.revokedAt = none := by
  obtain ⟨token, hresolves⟩ := h
  by_contra hrevoked
  simp [resolveSession, hrevoked] at hresolves

theorem Inv.final [DecidableEq Key] (h : s.Inv env) : s.Final env where
  hash := by
    intro current hcurrent
    obtain ⟨stored, hstored, hhash⟩ := h.hash current hcurrent
    exact ⟨stored, hstored, fun password => hhash.valid_iff⟩
  sessions := fun current hcurrent session hsession hlive =>
    h.sessions current hcurrent session hsession hlive.revokedAt
  once := h.once
  outdated := h.outdated

/-- **A password change is final** in every run in which no stale login writes and no
transaction that is overtaken commits. -/
theorem final_of_reachesWhen [DecidableEq Key]
    (h : (rotation env).ReachesWhen (fun s e => ¬ s.Overtakes env e) s) : s.Final env := by
  refine Inv.final (h.invariant ?_ fun _ _ _ hinv hok hstep => hinv.step hok hstep)
  rintro s ⟨htasks, hredeeming, hrotating, hcurrent, -, -, hresets, hredeemed, hkey, hissued⟩
  constructor
  case key => exact hkey
  case issued => exact fun row hrow _ => (hissued row hrow).trans hresets.symm
  all_goals simp [htasks, hredeeming, hrotating, hcurrent, hredeemed]

/-! ### A reset that is final, and one that is not -/

instance : Decidable (s.IsOvertaken env tx) := inferInstanceAs
  (Decidable ((∃ session ∈ s.sessions, _) ∨ tx.isReset = true ∧ ∃ row ∈ s.resetTokens, _))

instance : (e : RotationEvent Key) → Decidable (s.Overtakes env e)
  | .runs (.loginRehashes _ _ since) _ _ _ | .runs (.loginInserts _ since) _ _ _ =>
    inferInstanceAs (Decidable (since ≠ s.changes ∧ ∃ current ∈ s.current, _))
  | .runs (.loginVerifies ..) _ _ _ | .runs (.changeVerifies ..) _ _ _
  | .runs (.changeUpdates ..) _ _ _ | .runs (.issueInserts ..) _ _ _
  | .runs (.resetFinds ..) _ _ _ | .tick _ | .login _ | .changePassword .. | .issueReset _
  | .redeemReset .. | .startReset _ | .fails _ | .abandons _ | .aborts =>
    inferInstanceAs (Decidable False)
  | .proceeds => inferInstanceAs
    (Decidable (∃ tx ∈ s.rotating, tx.next = .commit ∧ s.IsOvertaken env tx))

/-- Keys that are the password itself, and tokens that are stored as they are. -/
def plainRotationEnv : RotationEnv (String × ℕ) where
  scrypt := {
    derive := fun password _ keylen _ _ _ => some (password, keylen)
    length := (·.2)
    zeros := ("", 32)
    length_derive := by
      rintro _ _ _ _ _ _ _ ⟨⟩
      rfl
    derive_injective := by
      rintro _ _ _ _ _ _ _ _ ⟨⟩ h
      exact (Prod.mk.inj (some.inj h)).1.symm }
  normalize := id
  passwordCost := 16
  passwordCost_mem := by decide
  hashToken := id

/-- Ida's account, with a hash made at an earlier cost and a reset link in her mail. -/
def idasAccount : Credentials (String × ℕ) where
  now := 0
  user := ⟨7, some "ida", "Ida", false, none⟩
  passwordHash := some (.scrypt 1024 8 1 [] ("ida's old password", 32))
  deactivatedAt := none
  sessions := []
  resetTokens := [⟨"mailed token", resetTtl, none, 0⟩]
  tasks := []
  redeeming := fun _ => none
  rotating := none
  current := none
  kept := none
  changes := 0
  resets := 0
  redeemed := []

theorem idasAccount_init : (rotation plainRotationEnv).init idasAccount := by
  refine ⟨rfl, rfl, rfl, rfl, rfl, rfl, rfl, rfl, ?_, ?_⟩
  all_goals decide

/-- Ida sets a new password with the link. -/
def resetByMail : List (RotationEvent (String × ℕ)) :=
  [.redeemReset "mailed token" "ida's new password",
    .runs (.resetFinds "mailed token" "ida's new password" 0) 0 "" [],
    .startReset "mailed token", .proceeds, .proceeds, .proceeds, .proceeds, .proceeds]

theorem final_of_reachesWhen_resetByMail :
    ∃ s, (rotation plainRotationEnv).ReachesWhen (fun s e => ¬ s.Overtakes plainRotationEnv e) s ∧
      s.current = some "ida's new password" ∧ s.Final plainRotationEnv := by
  have hreach : ∃ s, (rotation plainRotationEnv).ReachesWhen
      (fun s e => ¬ s.Overtakes plainRotationEnv e) s ∧ s.current = some "ida's new password" :=
    Machine.exists_reachesWhen_of_runWhen resetByMail idasAccount_init (by decide)
  obtain ⟨s, hs, hcurrent⟩ := hreach
  exact ⟨s, hs, hcurrent, final_of_reachesWhen hs⟩

/-- **The old password is back**: a login that verified it before the reset stores a hash of
it after the reset. -/
theorem not_final :
    ¬ ∀ s, (rotation plainRotationEnv).Reaches s → s.Final plainRotationEnv := by
  intro h
  have hreach : ∃ s, (rotation plainRotationEnv).Reaches s ∧
      s.current = some "ida's new password" ∧ ∃ stored ∈ s.passwordHash,
        (verifyPassword plainRotationEnv.toPasswordEnv "ida's old password" stored).valid = true :=
    Machine.exists_reachesWhen_of_runWhen
      ([.login "ida's old password",
        .runs (.loginVerifies "ida's old password"
          (some (.scrypt 1024 8 1 [] ("ida's old password", 32))) none 0) 0 "" []] ++
        resetByMail ++
        [.runs (.loginRehashes "ida's old password"
          (.scrypt 65536 8 1 [] ("ida's old password", 32)) 0) 0 "" []])
      idasAccount_init (by decide)
  obtain ⟨s, hs, hcurrent, stored, hstored, hvalid⟩ := hreach
  obtain ⟨stored', hstored', hexact⟩ := (h s hs).hash _ hcurrent
  obtain rfl := mem_unique hstored hstored'
  exact absurd ((hexact _).mp hvalid) (by decide)

end Credentials

end Sone
