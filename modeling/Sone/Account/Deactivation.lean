import Sone.Transition.Machine
import Sone.Account.Doors
import Mathlib.Data.Finset.Basic

/-!
# A deactivated account is out

The machine `accountDoors` interleaves the requests at the doors of all accounts, statement
by statement. `out` notes the accounts whose deactivation was answered and that were not
reactivated since, `shut` those whose sessions a deactivation has deleted and that were not
reactivated since.

A deactivation writes `deactivated_at` and deletes the sessions there are. Nothing that
resolves a session and none of the doors that make one reads that column, so an account that
is shut out comes in again through any of them (`Readmits`), also with a request that was
under way. `out_of_reachesWhen` says that without such a step no token of an account that is
out resolves; `Inv` is the invariant.
-/

namespace Sone

open List Option

namespace Accounts

variable {env : AccountEnv} {s : Accounts} {userId fresh : Uuid} {token : String}

/-! ### Accounts no session opens -/

/-- No row of `sessions` opens the account: there is none, or `disabled_at` is set. -/
def ShutOut (s : Accounts) (userId : Uuid) : Prop :=
  ∀ session ∈ s.sessions, session.userId = userId →
    ∀ user ∈ s.users, user.id = userId → user.disabledAt ≠ none

theorem exists_of_resolveSession {env : Env} {resolved : ResolvedSession}
    (h : resolveSession env s.tables token = some resolved) :
    ∃ session ∈ s.sessions, ∃ user ∈ s.users, user.id = session.userId ∧
      user.disabledAt = none ∧ resolved.user.userId = user.id := by
  have hmem := mem_of_head? h
  simp only [tables, mem_flatMap, mem_filter, List.mem_map] at hmem
  obtain ⟨session, ⟨hsession, -⟩, _, ⟨⟨user, huser, rfl⟩, hrow⟩, rfl⟩ := hmem
  simp only [decide_eq_true_eq] at hrow
  exact ⟨session, hsession, user, huser, hrow.1, hrow.2, rfl⟩

theorem ShutOut.resolveSession_ne {env : Env} {resolved : ResolvedSession} (h : s.ShutOut userId)
    (hresolved : resolveSession env s.tables token = some resolved) :
    resolved.user.userId ≠ userId := by
  obtain ⟨session, hsession, user, huser, hid, henabled, heq⟩ := exists_of_resolveSession hresolved
  rintro rfl
  exact h session hsession (hid.symm.trans heq.symm) user huser heq.symm henabled

theorem shutOut_deleteSessions : (s.deleteSessions userId).ShutOut userId := by
  intro session hsession hid
  simp [deleteSessions, hid] at hsession

theorem ShutOut.deleteSessions (h : s.ShutOut userId) (other : Uuid) :
    (s.deleteSessions other).ShutOut userId :=
  fun session hsession => h session (mem_of_mem_filter hsession)

theorem ShutOut.updateUser (h : s.ShutOut userId) (other : Uuid)
    {update : AccountRow → AccountRow} (hid : ∀ user, (update user).id = user.id)
    (hdisabled : ∀ user, (update user).disabledAt = user.disabledAt) :
    (s.updateUser other update).ShutOut userId := by
  intro session hsession hsame user huser
  obtain ⟨old, hold, rfl⟩ := List.mem_map.mp huser
  have hrow := h session hsession hsame old hold
  split
  · rw [hid, hdisabled]
    exact hrow
  · exact hrow

theorem ShutOut.write (h : s.ShutOut userId) (other : Uuid) (write : AccountWrite) :
    (s.write other write).ShutOut userId := by
  cases write with
  | isInstanceAdmin value => exact h.updateUser other (fun _ => rfl) fun _ => rfl
  | canManageWorkspaces value => exact h.updateUser other (fun _ => rfl) fun _ => rfl
  | deactivatedAt deactivated =>
    cases deactivated with
    | false => exact h.updateUser other (fun _ => rfl) fun _ => rfl
    | true => exact h.updateUser other (fun _ => rfl) fun _ => rfl
  | deleteSessions => exact h.deleteSessions other

theorem ShutOut.revokeSession (h : s.ShutOut userId) (sessionId : Uuid) :
    (s.revokeSession sessionId).ShutOut userId := by
  intro session hsession hsame
  obtain ⟨old, hold, rfl⟩ := List.mem_map.mp hsession
  refine h old hold ?_
  split at hsame
  · exact hsame
  · exact hsame

theorem ShutOut.issueReset (h : s.ShutOut userId) (email : String) :
    (s.issueReset env email token).ShutOut userId := by
  rw [Accounts.issueReset]
  split
  · exact h
  · split
    · exact h
    · exact h

theorem ShutOut.redeemReset (h : s.ShutOut userId) (newPassword : String) :
    (s.redeemReset env token newPassword).ShutOut userId := by
  rw [Accounts.redeemReset]
  split
  · exact h
  split
  · exact h
  split
  · exact h
  · rename_i found _ _ _
    have hupdated : (s.updateUser found.userId fun user =>
        { user with passwordHash := some (env.hashPassword newPassword) }).ShutOut userId :=
      h.updateUser found.userId (fun _ => rfl) fun _ => rfl
    exact hupdated.deleteSessions found.userId

theorem ShutOut.createSession (h : s.ShutOut userId) {other : Uuid}
    (hok : other = userId → ∀ user ∈ s.users, user.id = userId → user.disabledAt ≠ none) :
    (s.createSession env other fresh token).ShutOut userId := by
  intro session hsession hsame
  rcases mem_append.mp hsession with hold | hnew
  · exact h session hold hsame
  · obtain rfl := mem_singleton.mp hnew
    exact hok hsame

/-- An id that neither a user nor a session has. -/
def IsFresh (s : Accounts) (id : Uuid) : Prop :=
  (∀ user ∈ s.users, user.id ≠ id) ∧ ∀ session ∈ s.sessions, session.id ≠ id ∧ session.userId ≠ id

theorem ShutOut.insertUser (h : s.ShutOut userId) {user : AccountRow} (hfresh : s.IsFresh user.id) :
    ({ s with users := s.users ++ [user] } : Accounts).ShutOut userId := by
  intro session hsession hsame row hrow hid
  rcases mem_append.mp hrow with hold | hnew
  · exact h session hsession hsame row hold hid
  · -- no session names an account that is new
    obtain rfl := mem_singleton.mp hnew
    exact absurd (hsame.trans hid.symm) (hfresh.2 session hsession).2

/-- **What a statement does** that is not one of the administrator's writes: it changes
nothing, or a password, or inserts a session, ends one, creates an account or links one. -/
theorem run_cases {next : Accounts} {task : AccountTask} {isCodeRight : Bool}
    (htask : ∀ userId writes since, task ≠ .patchWrites userId writes since)
    (hrun : (s.run env task fresh token isCodeRight).1 = next) :
    next = s ∨
      (∃ target passwordHash, next = s.updateUser target fun user => { user with passwordHash }) ∨
      (∃ target, task.inserts = some target ∧ next = s.createSession env target fresh token) ∨
      (∃ sessionId tickets, next = { s.revokeSession sessionId with tickets }) ∨
      (∃ user, user.id = fresh ∧ next = { s with users := s.users ++ [user] }) ∨
      ∃ oidcIdentities, next = { s with oidcIdentities } := by
  subst hrun
  cases task with
  | patchWrites userId writes since => exact absurd rfl (htask userId writes since)
  | patchSession | patchAdmin | patchTarget | patchRemaining | loginReads | secondChecks
  | providerFinds =>
    left
    simp only [run]
    repeat' split
    all_goals rfl
  | loginVerifies password user =>
    left
    cases user with
    | none => rfl
    | some user =>
      simp only [run]
      repeat' split
      all_goals rfl
  | loginRehashes target password => exact .inr (.inl ⟨target, _, rfl⟩)
  | loginInserts target | secondInserts target | providerInserts target =>
    exact .inr (.inr (.inl ⟨target, rfl, rfl⟩))
  | loginAsksFactor target sessionId =>
    simp only [run]
    split
    · exact .inr (.inr (.inr (.inl ⟨sessionId, _, rfl⟩)))
    · exact .inl rfl
  | providerCreates sub email displayName =>
    simp only [run]
    split
    · exact .inl rfl
    · exact .inr (.inr (.inr (.inr (.inl ⟨_, rfl, rfl⟩))))
  | providerLinks sub target => exact .inr (.inr (.inr (.inr (.inr ⟨_, rfl⟩))))

/-- **A statement of a request** leaves an account shut out, unless it inserts a session
for the account and nothing but `deactivated_at` keeps it out. -/
theorem ShutOut.run (h : s.ShutOut userId) {task : AccountTask} {isCodeRight : Bool}
    (hfresh : s.IsFresh fresh)
    (htask : ∀ userId writes since, task ≠ .patchWrites userId writes since)
    (hok : task.inserts = some userId → ∀ user ∈ s.users, user.id = userId →
      user.disabledAt ≠ none) :
    (s.run env task fresh token isCodeRight).1.ShutOut userId := by
  generalize hrun : (s.run env task fresh token isCodeRight).1 = next
  rcases run_cases htask hrun with rfl | ⟨target, passwordHash, rfl⟩ | ⟨target, hinserts, rfl⟩ |
    ⟨sessionId, tickets, rfl⟩ | ⟨user, rfl, rfl⟩ | ⟨identities, rfl⟩
  · exact h
  · exact h.updateUser target (fun _ => rfl) fun _ => rfl
  · exact h.createSession fun hsame => hok (hsame ▸ hinserts)
  · exact h.revokeSession sessionId
  · exact h.insertUser hfresh
  · exact h

end Accounts

/-! ### The machine -/

/-- The accounts, the requests being handled, and two notes about deactivations. -/
structure AccountLife extends Accounts where
  tasks : List AccountTask
  /-- The accounts whose sessions a deactivation deleted, not reactivated since. -/
  shut : Finset Uuid
  /-- The accounts a deactivation of which was answered, not reactivated since. -/
  out : Finset Uuid

inductive AccountEvent where
  | tick (elapsed : Time)
  | patch (cookie : String) (userId : Uuid) (body : PatchBody)
  /-- The password login, with the address trimmed and in lower case. -/
  | login (email password : String)
  /-- The second step, with a ticket that was signed. -/
  | second (userId : Uuid) (expires : Time)
  | provider (claims : ProviderClaims)
  /-- `issueReset`, with the address trimmed and the token it generates. -/
  | issueReset (email token : String)
  | redeemReset (token newPassword : String)
  /-- `resolveSession` touches `last_seen_at`. -/
  | touch (sessionId : Uuid)
  /-- The next statement of a request runs. -/
  | runs (task : AccountTask) (fresh : Uuid) (token : String) (isCodeRight : Bool)
  /-- A request ends where it is: refused by a limit, or its statement failed. -/
  | fails (task : AccountTask)

namespace AccountLife

/-- What a statement of a deactivation or a reactivation does to the notes. -/
def note (s : AccountLife) : AccountTask → AccountLife
  | .patchWrites userId (.deactivatedAt false :: _) _ =>
    { s with shut := s.shut.erase userId, out := s.out.erase userId }
  | .patchWrites userId (.deleteSessions :: _) since =>
    if since = some (s.reactivations userId) then { s with shut := insert userId s.shut } else s
  -- the answer
  | .patchWrites userId [] since =>
    if since = some (s.reactivations userId) then { s with out := insert userId s.out } else s
  | _ => s

def arrive (s : AccountLife) (task : AccountTask) : AccountLife :=
  { s with tasks := s.tasks ++ [task] }

instance (s : Accounts) (id : Uuid) : Decidable (s.IsFresh id) := inferInstanceAs
  (Decidable ((∀ user ∈ s.users, _) ∧ ∀ session ∈ s.sessions, _))

def step (env : AccountEnv) (s : AccountLife) : AccountEvent → Option AccountLife
  | .tick elapsed => some { s with now := s.now + elapsed }
  | .patch cookie userId body => some (s.arrive (.patchSession cookie userId body))
  | .login email password => some (s.arrive (.loginReads email password))
  | .second userId expires =>
    if (userId, expires) ∈ s.tickets ∧ s.now < expires then
      some (s.arrive (.secondChecks userId)) else none
  | .provider claims => some (s.arrive (.providerFinds claims))
  | .issueReset email token =>
    some { s with toAccounts := s.toAccounts.issueReset env email token }
  | .redeemReset token newPassword =>
    some { s with toAccounts := s.toAccounts.redeemReset env token newPassword }
  | .touch sessionId =>
    some { s with sessions := s.sessions.map fun session =>
      if session.id = sessionId then { session with lastSeenAt := s.now } else session }
  | .runs task fresh token isCodeRight =>
    if task ∈ s.tasks ∧ s.IsFresh fresh then
      let out := s.toAccounts.run env task fresh token isCodeRight
      some { s.note task with
        toAccounts := out.1, tasks := s.tasks.erase task ++ out.2.toList }
    else none
  | .fails task => if task ∈ s.tasks then some { s with tasks := s.tasks.erase task } else none

end AccountLife

/-- **The machine of the doors.** It starts with any accounts and sessions, and with no
request and no deactivation under way. -/
def accountDoors (env : AccountEnv) : Machine AccountLife AccountEvent where
  init s := s.tasks = [] ∧ s.shut = ∅ ∧ s.out = ∅
  step := AccountLife.step env

namespace AccountLife

variable {env : AccountEnv} {s s' : AccountLife} {userId : Uuid}

/-- A session is inserted for an account that is shut out, and that `disabled_at` does not
keep out. -/
def Readmits (s : AccountLife) : AccountEvent → Prop
  | .runs task _ _ _ => ∃ userId ∈ task.inserts, userId ∈ s.shut ∧
      ∃ user ∈ s.users, user.id = userId ∧ user.disabledAt = none
  | _ => False

/-- **The invariant.** -/
structure Inv (s : AccountLife) : Prop where
  shut : ∀ userId ∈ s.shut, s.ShutOut userId
  out : s.out ⊆ s.shut
  /-- A request that deactivated an account has the sessions still to delete, or deleted
  them, unless the account was reactivated since. -/
  since : ∀ userId writes since, .patchWrites userId writes (some since) ∈ s.tasks →
    since ≤ s.reactivations userId ∧
      (since = s.reactivations userId → .deleteSessions ∈ writes ∨ userId ∈ s.shut)

theorem Inv.congr (h : s.Inv) {accounts : Accounts} {tasks : List AccountTask}
    (hshut : ∀ userId ∈ s.shut, accounts.ShutOut userId)
    (hreactivations : accounts.reactivations = s.reactivations)
    (htasks : ∀ userId writes since, .patchWrites userId writes (some since) ∈ tasks →
      .patchWrites userId writes (some since) ∈ s.tasks) :
    Inv { s with toAccounts := accounts, tasks } where
  shut := hshut
  out := h.out
  since := by
    intro userId writes since htask
    rw [hreactivations]
    exact h.since userId writes since (htasks userId writes since htask)

theorem Inv.arrive (h : s.Inv) {task : AccountTask}
    (htask : ∀ userId writes since, task ≠ .patchWrites userId writes since) :
    (s.arrive task).Inv := by
  refine h.congr h.shut rfl fun userId writes since hmem => ?_
  rcases mem_append.mp hmem with hold | hnew
  · exact hold
  · exact absurd (mem_singleton.mp hnew).symm (htask _ _ _)

/-! ### The writes of the administrator's request -/

section Writes

variable {writes : List AccountWrite} {since : Option ℕ} {tasks : List AccountTask}

theorem Inv.answer (h : s.Inv) (htask : .patchWrites userId [] since ∈ s.tasks)
    (htasks : ∀ task ∈ tasks, task ∈ s.tasks) :
    Inv { s.note (.patchWrites userId [] since) with toAccounts := s.toAccounts, tasks } := by
  have hsince : ∀ userId writes since, .patchWrites userId writes (some since) ∈ tasks →
      since ≤ s.reactivations userId ∧
        (since = s.reactivations userId → .deleteSessions ∈ writes ∨ userId ∈ s.shut) :=
    fun userId writes since hmem => h.since userId writes since (htasks _ hmem)
  simp only [note]
  split
  · rename_i hcurrent
    subst hcurrent
    -- nothing is left to write, so the sessions were deleted
    have hshut : userId ∈ s.shut :=
      ((h.since userId [] _ htask).2 rfl).resolve_left (by simp)
    refine ⟨h.shut, ?_, hsince⟩
    exact Finset.insert_subset hshut h.out
  · exact ⟨h.shut, h.out, hsince⟩

private theorem mem_tasks {task next : AccountTask} {since' : ℕ} {other : Uuid}
    (hmem : .patchWrites other writes (some since') ∈ s.tasks.erase task ++ [next]) :
    .patchWrites other writes (some since') ∈ s.tasks ∨
      next = .patchWrites other writes (some since') := by
  rcases mem_append.mp hmem with hold | hnew
  · exact .inl (mem_of_mem_erase hold)
  · exact .inr (mem_singleton.mp hnew).symm

theorem Inv.deactivate (h : s.Inv) {task : AccountTask} :
    Inv { s with
      toAccounts := s.toAccounts.write userId (.deactivatedAt true)
      tasks := s.tasks.erase task ++
        [.patchWrites userId (.deleteSessions :: writes) (some (s.reactivations userId))] } where
  shut := fun other hother => (h.shut other hother).write userId _
  out := h.out
  since := by
    intro other writes' since' hmem
    rcases mem_tasks hmem with hold | hnew
    · exact h.since other writes' since' hold
    · obtain ⟨rfl, rfl, hsince⟩ := AccountTask.patchWrites.inj hnew
      obtain rfl := some.inj hsince
      exact ⟨le_rfl, fun _ => .inl mem_cons_self⟩

/-- **Reactivating** takes the account off both notes, and outdates what deactivated it. -/
theorem Inv.reactivate (h : s.Inv) {task : AccountTask}
    (htask : .patchWrites userId (.deactivatedAt false :: writes) since ∈ s.tasks) :
    Inv { s.note (.patchWrites userId (.deactivatedAt false :: writes) since) with
      toAccounts := s.toAccounts.write userId (.deactivatedAt false)
      tasks := s.tasks.erase task ++ [.patchWrites userId writes since] } where
  shut := fun other hother =>
    (h.shut other (Finset.mem_of_mem_erase hother)).write userId _
  out := Finset.erase_subset_erase userId h.out
  since := by
    intro other writes' since' hmem
    -- the request had the reactivation before it, unless it is another one
    have hold : ∃ writes'', .patchWrites other writes'' (some since') ∈ s.tasks ∧
        (other ≠ userId → writes'' = writes') := by
      rcases mem_tasks hmem with hold | hnew
      · exact ⟨writes', hold, fun _ => rfl⟩
      · obtain ⟨rfl, rfl, rfl⟩ := AccountTask.patchWrites.inj hnew
        exact ⟨_, htask, fun hne => absurd rfl hne⟩
    obtain ⟨writes'', hold, hsame⟩ := hold
    obtain ⟨hle, hcurrent⟩ := h.since other writes'' since' hold
    by_cases hother : other = userId
    · subst hother
      have hbefore : s.reactivations other + 1 =
          (s.toAccounts.write other (.deactivatedAt false)).reactivations other := by
        simp [Accounts.write]
      refine ⟨(hle.trans (Nat.le_succ _)).trans_eq hbefore, fun heq => ?_⟩
      have hnow : since' = s.reactivations other + 1 := heq.trans hbefore.symm
      omega
    · have hbefore : (s.toAccounts.write userId (.deactivatedAt false)).reactivations other =
          s.reactivations other := Function.update_of_ne hother ..
      simp only [hbefore]
      refine ⟨hle, fun heq => ?_⟩
      rw [← hsame hother]
      exact (hcurrent heq).imp_right fun hshut => Finset.mem_erase.mpr ⟨hother, hshut⟩

/-- **Deleting the sessions** shuts the account out. -/
theorem Inv.deleteSessions (h : s.Inv) {task : AccountTask}
    (htask : .patchWrites userId (.deleteSessions :: writes) since ∈ s.tasks) :
    Inv { s.note (.patchWrites userId (.deleteSessions :: writes) since) with
      toAccounts := s.toAccounts.write userId .deleteSessions
      tasks := s.tasks.erase task ++ [.patchWrites userId writes since] } := by
  simp only [note]
  split
  · rename_i hcurrent
    refine ⟨?_, h.out.trans (Finset.subset_insert _ _), ?_⟩
    · intro other hother
      rcases Finset.mem_insert.mp hother with rfl | hother
      · exact Accounts.shutOut_deleteSessions
      · exact (h.shut other hother).deleteSessions userId
    · intro other writes' since' hmem
      rcases mem_tasks hmem with hold | hnew
      · obtain ⟨hle, hdeleted⟩ := h.since other writes' since' hold
        exact ⟨hle, fun heq => (hdeleted heq).imp_right (Finset.mem_insert_of_mem ·)⟩
      · obtain ⟨rfl, rfl, rfl⟩ := AccountTask.patchWrites.inj hnew
        obtain ⟨hle, -⟩ := h.since _ _ _ htask
        exact ⟨hle, fun _ => .inr (Finset.mem_insert_self _ _)⟩
  · rename_i houtdated
    refine ⟨fun other hother => (h.shut other hother).deleteSessions userId, h.out, ?_⟩
    intro other writes' since' hmem
    rcases mem_tasks hmem with hold | hnew
    · exact h.since other writes' since' hold
    · obtain ⟨rfl, rfl, rfl⟩ := AccountTask.patchWrites.inj hnew
      obtain ⟨hle, -⟩ := h.since _ _ _ htask
      exact ⟨hle, fun heq => absurd (congrArg some heq) houtdated⟩

theorem Inv.writeRight (h : s.Inv) {task : AccountTask} {write : AccountWrite}
    (htask : .patchWrites userId (write :: writes) since ∈ s.tasks)
    (hright : write ≠ .deleteSessions)
    (hreactivations : (s.toAccounts.write userId write).reactivations = s.reactivations) :
    Inv { s with
      toAccounts := s.toAccounts.write userId write
      tasks := s.tasks.erase task ++ [.patchWrites userId writes since] } where
  shut := fun other hother => (h.shut other hother).write userId write
  out := h.out
  since := by
    intro other writes' since' hmem
    rw [hreactivations]
    rcases mem_tasks hmem with hold | hnew
    · exact h.since other writes' since' hold
    · obtain ⟨rfl, rfl, rfl⟩ := AccountTask.patchWrites.inj hnew
      obtain ⟨hle, hdelete⟩ := h.since _ _ _ htask
      refine ⟨hle, fun heq => (hdelete heq).imp_left fun hmem => ?_⟩
      exact (mem_cons.mp hmem).resolve_left fun heq => hright heq.symm

end Writes

/-! ### Runs -/

theorem startWrites_ne {adminId target userId : Uuid} {body : PatchBody}
    {writes : List AccountWrite} {since : ℕ} :
    Accounts.startWrites adminId target body ≠ some (.patchWrites userId writes (some since)) := by
  rw [Accounts.startWrites]
  split <;> simp

theorem run_next {accounts : Accounts} {task : AccountTask} {fresh : Uuid} {token : String}
    {isCodeRight : Bool} {writes : List AccountWrite} {since : ℕ}
    (htask : ∀ userId writes since, task ≠ .patchWrites userId writes since) :
    (accounts.run env task fresh token isCodeRight).2 ≠
      some (.patchWrites userId writes (some since)) := by
  cases task with
  | patchWrites userId writes since => exact absurd rfl (htask userId writes since)
  | patchTarget adminId target body | patchRemaining adminId target body =>
    simp only [Accounts.run]
    repeat' split
    all_goals first | exact startWrites_ne | simp
  | loginVerifies password user =>
    cases user with
    | none => simp [Accounts.run]
    | some user =>
      simp only [Accounts.run]
      repeat' split
      all_goals simp
  | patchSession | patchAdmin | loginReads | loginRehashes | loginInserts | loginAsksFactor
  | secondChecks | secondInserts | providerFinds | providerCreates | providerLinks
  | providerInserts =>
    simp only [Accounts.run]
    repeat' split
    all_goals simp

theorem run_reactivations {accounts : Accounts} {task : AccountTask} {fresh : Uuid}
    {token : String} {isCodeRight : Bool}
    (htask : ∀ userId writes since, task ≠ .patchWrites userId writes since) :
    (accounts.run env task fresh token isCodeRight).1.reactivations = accounts.reactivations := by
  generalize hrun : (accounts.run env task fresh token isCodeRight).1 = next
  rcases Accounts.run_cases htask hrun with rfl | ⟨_, _, rfl⟩ | ⟨_, -, rfl⟩ | ⟨_, _, rfl⟩ |
    ⟨_, -, rfl⟩ | ⟨_, rfl⟩
  all_goals rfl

theorem Inv.runOther (h : s.Inv) {task : AccountTask} {fresh : Uuid} {token : String}
    {isCodeRight : Bool} (hfresh : s.IsFresh fresh)
    (hok : ¬ s.Readmits (.runs task fresh token isCodeRight))
    (htask : ∀ userId writes since, task ≠ .patchWrites userId writes since) :
    Inv { s with
      toAccounts := (s.toAccounts.run env task fresh token isCodeRight).1
      tasks := s.tasks.erase task ++
        (s.toAccounts.run env task fresh token isCodeRight).2.toList } := by
  refine h.congr (fun userId hshut => (h.shut userId hshut).run hfresh htask ?_)
    (run_reactivations htask) fun userId writes since hmem => ?_
  · intro hinserts user huser hid henabled
    exact hok ⟨userId, hinserts, hshut, user, huser, hid, henabled⟩
  · rcases mem_append.mp hmem with hold | hnew
    · exact mem_of_mem_erase hold
    · exact absurd (mem_toList.mp hnew) (run_next htask)

theorem Inv.step {e : AccountEvent} (h : s.Inv) (hok : ¬ s.Readmits e)
    (hstep : (accountDoors env).step s e = some s') : s'.Inv := by
  cases e with
  | tick elapsed =>
    obtain rfl := some.inj hstep
    exact h.congr h.shut rfl fun _ _ _ hmem => hmem
  | patch cookie userId body =>
    obtain rfl := some.inj hstep
    exact h.arrive (by simp)
  | login email password =>
    obtain rfl := some.inj hstep
    exact h.arrive (by simp)
  | second userId expires =>
    simp only [accountDoors, AccountLife.step, ite_none_right_eq_some,
      Option.some.injEq] at hstep
    obtain ⟨-, rfl⟩ := hstep
    exact h.arrive (by simp)
  | provider claims =>
    obtain rfl := some.inj hstep
    exact h.arrive (by simp)
  | issueReset email token =>
    obtain rfl := some.inj hstep
    refine h.congr (fun userId hshut => (h.shut userId hshut).issueReset email) ?_
      fun _ _ _ hmem => hmem
    rw [Accounts.issueReset]
    split
    · rfl
    · split <;> rfl
  | redeemReset token newPassword =>
    obtain rfl := some.inj hstep
    refine h.congr (fun userId hshut => (h.shut userId hshut).redeemReset newPassword) ?_
      fun _ _ _ hmem => hmem
    rw [Accounts.redeemReset]
    repeat' split
    all_goals rfl
  | touch sessionId =>
    obtain rfl := some.inj hstep
    refine h.congr (fun userId hshut session hsession hsame => ?_) rfl fun _ _ _ hmem => hmem
    obtain ⟨old, hold, rfl⟩ := List.mem_map.mp hsession
    refine h.shut userId hshut old hold ?_
    split at hsame
    · exact hsame
    · exact hsame
  | runs task fresh token isCodeRight =>
    simp only [accountDoors, AccountLife.step, ite_none_right_eq_some,
      Option.some.injEq] at hstep
    obtain ⟨⟨htask, hfresh⟩, rfl⟩ := hstep
    by_cases hwrites : ∃ userId writes since, task = .patchWrites userId writes since
    · obtain ⟨userId, writes, since, rfl⟩ := hwrites
      rcases writes with _ | ⟨write, writes⟩
      · refine h.answer htask fun task hmem => ?_
        exact mem_of_mem_erase ((append_nil _) ▸ hmem)
      · rcases write with value | value | (_ | _) | _
        · exact h.writeRight htask (by simp) rfl
        · exact h.writeRight htask (by simp) rfl
        · exact h.reactivate htask
        · exact h.deactivate
        · exact h.deleteSessions htask
    · simp only [not_exists] at hwrites
      have hnote : s.note task = s := by
        cases task with
        | patchWrites userId writes since => exact absurd rfl (hwrites userId writes since)
        | _ => rfl
      simp only [hnote]
      exact h.runOther hfresh hok hwrites
  | fails task =>
    simp only [accountDoors, AccountLife.step, ite_none_right_eq_some,
      Option.some.injEq] at hstep
    obtain ⟨-, rfl⟩ := hstep
    exact h.congr h.shut rfl fun _ _ _ hmem => mem_of_mem_erase hmem

/-- **A deactivated account is out** in every run without such a step: from the answer to
its deactivation until it is reactivated, no token resolves to it. -/
theorem out_of_reachesWhen (h : (accountDoors env).ReachesWhen (fun s e => ¬ s.Readmits e) s)
    (hout : userId ∈ s.out) (at' : Env) (token : String) :
    ∀ resolved ∈ resolveSession at' s.tables token, resolved.user.userId ≠ userId := by
  have hinv : s.Inv := by
    refine h.invariant ?_ fun _ _ _ hinv hok hstep => hinv.step hok hstep
    rintro s ⟨htasks, hshut, hout⟩
    exact ⟨by simp [hshut], by simp [hout], by simp [htasks]⟩
  intro resolved hresolved
  exact (hinv.shut userId (hinv.out hout)).resolveSession_ne hresolved

/-! ### A deactivation that holds, and one that does not -/

instance (s : AccountLife) : (e : AccountEvent) → Decidable (s.Readmits e)
  | .runs task _ _ _ => inferInstanceAs (Decidable (∃ userId ∈ task.inserts,
      userId ∈ s.shut ∧ ∃ user ∈ s.users, _))
  | .tick _ | .patch _ _ _ | .login _ _ | .second _ _ | .provider _ | .issueReset _ _
  | .redeemReset _ _ | .touch _ | .fails _ => inferInstanceAs (Decidable False)

/-- Hashes that are the thing itself, and no sign-up through the provider. -/
def plainEnv : AccountEnv where
  hashToken := id
  hashPassword := id
  verifyPassword := fun password storedHash => password = storedHash
  needsRehash := fun _ => false
  isPasswordAcceptable := fun password => 8 ≤ password.length
  lower := id
  issuer := "https://idp"
  allowSignup := false

def adminAndIda : AccountLife where
  now := 0
  users := [⟨⟨1, some "root", "Root", false, none⟩, some "root's password", true, true, none⟩,
    ⟨⟨7, some "ida", "Ida", false, none⟩, some "ida's password", false, false, none⟩]
  sessions := [⟨10, 1, "root's token", none, sessionTtl, 0⟩,
    ⟨70, 7, "ida's token", none, sessionTtl, 0⟩]
  secondFactors := []
  oidcIdentities := []
  passwordResetTokens := []
  tickets := []
  reactivations := fun _ => 0
  tasks := []
  shut := ∅
  out := ∅

theorem adminAndIda_init : (accountDoors plainEnv).init adminAndIda := ⟨rfl, rfl, rfl⟩

/-- The administrator deactivates Ida's account, and is answered. -/
def deactivation : List AccountEvent :=
  let body : PatchBody := ⟨none, none, some true⟩
  [.patch "root's token" 7 body, .runs (.patchSession "root's token" 7 body) 100 "" false,
    .runs (.patchAdmin 1 7 body) 100 "" false, .runs (.patchTarget 1 7 body) 100 "" false,
    .runs (.patchWrites 7 [.deactivatedAt true] none) 100 "" false,
    .runs (.patchWrites 7 [.deleteSessions] (some 0)) 100 "" false,
    .runs (.patchWrites 7 [] (some 0)) 100 "" false]

/-- Ida signs in with her password. -/
def signIn : List AccountEvent :=
  [.login "ida" "ida's password", .runs (.loginReads "ida" "ida's password") 101 "" false,
    .runs (.loginVerifies "ida's password" (some ⟨⟨7, some "ida", "Ida", false, none⟩,
      some "ida's password", false, false, some 0⟩)) 101 "" false,
    .runs (.loginInserts 7) 101 "ida's second token" false,
    .runs (.loginAsksFactor 7 101) 102 "" false]

theorem out_of_reachesWhen_deactivation :
    ∃ s, (accountDoors plainEnv).ReachesWhen (fun s e => ¬ s.Readmits e) s ∧ 7 ∈ s.out ∧
      ∀ (at' : Env) (token : String), ∀ resolved ∈ resolveSession at' s.tables token,
        resolved.user.userId ≠ 7 := by
  have hreach : ∃ s, (accountDoors plainEnv).ReachesWhen (fun s e => ¬ s.Readmits e) s ∧
      7 ∈ s.out :=
    Machine.exists_reachesWhen_of_runWhen deactivation adminAndIda_init (by decide)
  obtain ⟨s, hs, hout⟩ := hreach
  exact ⟨s, hs, hout, out_of_reachesWhen hs hout⟩

/-- **Ida signs in again** with her password after her account was deactivated. -/
theorem not_out : ¬ ∀ s, (accountDoors plainEnv).Reaches s → ∀ userId ∈ s.out,
    ∀ (at' : Env) (token : String), ∀ resolved ∈ resolveSession at' s.tables token,
      resolved.user.userId ≠ userId := by
  intro h
  have hreach : ∃ s, (accountDoors plainEnv).Reaches s ∧ 7 ∈ s.out ∧
      (resolveSession ⟨0, id, none⟩ s.tables "ida's second token").map (·.user.userId) =
        some 7 :=
    Machine.exists_reachesWhen_of_runWhen (deactivation ++ signIn) adminAndIda_init (by decide)
  obtain ⟨s, hs, hout, hresolves⟩ := hreach
  obtain ⟨resolved, hresolved, hid⟩ := map_eq_some_iff.mp hresolves
  exact h s hs 7 hout _ _ resolved hresolved hid

end AccountLife

end Sone
