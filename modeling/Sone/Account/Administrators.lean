import Sone.Account.Deactivation

/-!
# The last administrator

The administrator's `PATCH /api/admin/users/:userId` refuses to demote or to deactivate the last
instance administrator: it counts the others and writes in statements of their own afterwards.
Two requests about two accounts count each other. `demoted_each_other` is such a run, and
`hasAdministrator_of_reachesWhen` says that nothing else goes wrong: where every request that
passes the checks leaves an administrator whom no request under way is about to take the right
from, there is always one.

`administrators` is the machine of all the doors of an account, over a table of accounts with a
primary key.
-/

namespace Sone

open List Option

/-- `is_instance_admin AND deactivated_at IS NULL` -/
def AccountRow.isActiveAdmin (user : AccountRow) : Bool :=
  user.isInstanceAdmin && user.deactivatedAt.isNone

/-- A write that may take the right away. -/
def AccountWrite.takes : AccountWrite → Bool
  | isInstanceAdmin value => !value
  | canManageWorkspaces _ => false
  | deactivatedAt deactivated => deactivated
  | deleteSessions => false

/-- The account a request that passed the checks is about to take the right from. -/
def AccountTask.takesFrom : AccountTask → Option Uuid
  | patchWrites userId writes _ => if writes.any AccountWrite.takes then some userId else none
  | _ => none

/-- A request of an administrator that has not passed the checks. -/
def AccountTask.isChecking : AccountTask → Bool
  | patchTarget .. => true
  | patchRemaining .. => true
  | _ => false

/-- Whether a request is past the checks. -/
def AccountTask.isWriting : AccountTask → Bool
  | patchWrites .. => true
  | _ => false

namespace Accounts

def HasAdministrator (s : Accounts) : Prop := ∃ user ∈ s.users, user.isActiveAdmin = true

variable {env : AccountEnv} {s s' : Accounts} {userId fresh : Uuid} {token : String}
  {isCodeRight : Bool} {user : AccountRow}

def Administers (s : Accounts) (userId : Uuid) : Prop :=
  ∃ user ∈ s.users, user.id = userId ∧ user.isActiveAdmin = true

theorem administers_updateUser {update : AccountRow → AccountRow} (huser : user ∈ s.users)
    (hactive : user.isActiveAdmin = true) (hid : ∀ user, (update user).id = user.id)
    (hupdate : user.id = userId → (update user).isActiveAdmin = true) :
    (s.updateUser userId update).Administers user.id := by
  refine ⟨_, List.mem_map.mpr ⟨user, huser, rfl⟩, ?_⟩
  split
  · rename_i heq
    exact ⟨hid user, hupdate heq⟩
  · exact ⟨rfl, hactive⟩

/-- **A write keeps an administrator** unless it is about the account and may take the right. -/
theorem administers_write (huser : user ∈ s.users) (hactive : user.isActiveAdmin = true)
    (write : AccountWrite) (hwrite : user.id = userId → write.takes = false) :
    (s.write userId write).Administers user.id := by
  have hboth : user.isInstanceAdmin = true ∧ user.deactivatedAt.isNone = true := by
    rwa [AccountRow.isActiveAdmin, Bool.and_eq_true] at hactive
  cases write with
  | isInstanceAdmin value =>
    refine administers_updateUser huser hactive (fun _ => rfl) fun heq => ?_
    have hvalue : value = true := by simpa [AccountWrite.takes] using hwrite heq
    rw [AccountRow.isActiveAdmin, hvalue, hboth.2]
    rfl
  | canManageWorkspaces value =>
    exact administers_updateUser huser hactive (fun _ => rfl) fun _ => hactive
  | deactivatedAt deactivated =>
    cases deactivated with
    | true =>
      refine administers_updateUser huser hactive (fun _ => rfl) fun heq => ?_
      have htakes := hwrite heq
      cases htakes
    | false =>
      refine administers_updateUser huser hactive (fun _ => rfl) fun _ => ?_
      rw [AccountRow.isActiveAdmin, hboth.1]
      rfl
  | deleteSessions => exact ⟨user, huser, rfl, hactive⟩

theorem administers_run {task : AccountTask} (htask : task.isWriting = false)
    (huser : user ∈ s.users)
    (hactive : user.isActiveAdmin = true) :
    (s.run env task fresh token isCodeRight).1.Administers user.id := by
  have hnot : ∀ userId writes since, task ≠ .patchWrites userId writes since := by
    rintro userId writes since rfl
    cases htask
  generalize hrun : (s.run env task fresh token isCodeRight).1 = next
  rcases run_cases hnot hrun with rfl | ⟨target, passwordHash, rfl⟩ | ⟨target, -, rfl⟩ |
    ⟨sessionId, tickets, rfl⟩ | ⟨new, -, rfl⟩ | ⟨identities, rfl⟩
  · exact ⟨user, huser, rfl, hactive⟩
  · exact administers_updateUser huser hactive (fun _ => rfl) fun _ => hactive
  · exact ⟨user, huser, rfl, hactive⟩
  · exact ⟨user, huser, rfl, hactive⟩
  · exact ⟨user, mem_append_left _ huser, rfl, hactive⟩
  · exact ⟨user, huser, rfl, hactive⟩

/-- The primary key of `users`. -/
def HasKeys (s : Accounts) : Prop := (s.users.map (·.id)).Nodup

theorem HasKeys.updateUser (h : s.HasKeys) {update : AccountRow → AccountRow}
    (hid : ∀ user, (update user).id = user.id) : (s.updateUser userId update).HasKeys := by
  have hids : (s.updateUser userId update).users.map (·.id) = s.users.map (·.id) := by
    rw [Accounts.updateUser, List.map_map]
    refine map_congr_left fun user _ => ?_
    rw [Function.comp_apply]
    split
    · exact hid user
    · rfl
  rw [HasKeys, hids]
  exact h

theorem HasKeys.write (h : s.HasKeys) (write : AccountWrite) : (s.write userId write).HasKeys := by
  rcases write with value | value | (_ | _) | _
  · exact h.updateUser fun _ => rfl
  · exact h.updateUser fun _ => rfl
  · exact h.updateUser fun _ => rfl
  · exact h.updateUser fun _ => rfl
  · exact h

theorem HasKeys.run (h : s.HasKeys) {task : AccountTask} (htask : task.isWriting = false)
    (hfresh : s.IsFresh fresh) : (s.run env task fresh token isCodeRight).1.HasKeys := by
  have hnot : ∀ userId writes since, task ≠ .patchWrites userId writes since := by
    rintro userId writes since rfl
    cases htask
  generalize hrun : (s.run env task fresh token isCodeRight).1 = next
  rcases run_cases hnot hrun with rfl | ⟨target, passwordHash, rfl⟩ | ⟨target, -, rfl⟩ |
    ⟨sessionId, tickets, rfl⟩ | ⟨new, hnew, rfl⟩ | ⟨identities, rfl⟩
  · exact h
  · exact h.updateUser fun _ => rfl
  · exact h
  · exact h
  · rw [HasKeys, map_append]
    refine nodup_append_comm.mp (nodup_cons.mpr ⟨fun hmem => ?_, h⟩)
    obtain ⟨user, huser, hid⟩ := List.mem_map.mp hmem
    exact hfresh.1 user huser (hid.trans hnew)
  · exact h

theorem hasAdministrator_of_run {task next : AccountTask}
    (hrun : (s.run env task fresh token isCodeRight).2 = some next)
    (hchecks : next.isChecking = true) :
    s.HasAdministrator ∨ task.isChecking = true := by
  have hstart : ∀ {adminId target : Uuid} {body : PatchBody},
      startWrites adminId target body ≠ some next := by
    intro adminId target body heq
    rw [startWrites] at heq
    split_ifs at heq
    · obtain rfl := some.inj heq
      cases hchecks
  cases task with
  | patchTarget | patchRemaining => exact .inr rfl
  | patchAdmin adminId target body =>
    rw [Accounts.run] at hrun
    cases hfind : s.users.find? fun user => user.id = adminId with
    | none =>
      rw [hfind] at hrun
      cases hrun
    | some admin =>
      rw [hfind] at hrun
      dsimp only at hrun
      split_ifs at hrun with hactive
      · exact .inl ⟨admin, List.mem_of_find?_eq_some hfind, hactive⟩
  | patchWrites target writes since =>
    rcases writes with _ | ⟨write, writes⟩
    · cases hrun
    · rcases write with value | value | (_ | _) | _
      all_goals
        obtain rfl := some.inj hrun
        cases hchecks
  | loginVerifies password user =>
    cases user with
    | none => cases hrun
    | some user =>
      simp only [Accounts.run] at hrun
      split_ifs at hrun
      all_goals
        obtain rfl := some.inj hrun
        cases hchecks
  | patchSession | loginReads | loginRehashes | loginInserts | loginAsksFactor | secondChecks
  | secondInserts | providerFinds | providerCreates | providerLinks | providerInserts =>
    simp only [Accounts.run] at hrun
    repeat' split at hrun
    all_goals
      first
      | obtain rfl := some.inj hrun
        cases hchecks
      | cases hrun

theorem run_patchWrites (userId : Uuid) (write : AccountWrite) (writes : List AccountWrite)
    (since : Option ℕ) :
    ∃ writes' since', s.run env (.patchWrites userId (write :: writes) since) fresh token
        isCodeRight = (s.write userId write, some (.patchWrites userId writes' since')) ∧
      writes'.any AccountWrite.takes = writes.any AccountWrite.takes := by
  rcases write with value | value | (_ | _) | _
  · exact ⟨writes, since, rfl, rfl⟩
  · exact ⟨writes, since, rfl, rfl⟩
  · exact ⟨writes, since, rfl, rfl⟩
  · exact ⟨.deleteSessions :: writes, some (s.reactivations userId), rfl, rfl⟩
  · exact ⟨writes, since, rfl, rfl⟩

/-- **A request passes the checks** where it is checked. -/
theorem isChecking_of_passes {task : AccountTask} (htask : task.isWriting = false)
    (hpasses : (s.run env task fresh token isCodeRight).2.bind AccountTask.takesFrom =
      some userId) : task.isChecking = true := by
  cases task with
  | patchTarget | patchRemaining => rfl
  | patchWrites => cases htask
  | loginVerifies password user =>
    cases user with
    | none => cases hpasses
    | some user =>
      simp only [Accounts.run] at hpasses
      split_ifs at hpasses <;> cases hpasses
  | patchSession | patchAdmin | loginReads | loginRehashes | loginInserts | loginAsksFactor
  | secondChecks | secondInserts | providerFinds | providerCreates | providerLinks
  | providerInserts =>
    simp only [Accounts.run] at hpasses
    repeat' split at hpasses
    all_goals cases hpasses

/-- **A request that passes the checks** about an account leaves another administrator, where
there is one. -/
theorem exists_of_passes (hkeys : s.HasKeys) {task : AccountTask} (hchecks : task.isChecking = true)
    (hadmin : s.HasAdministrator)
    (hpasses : (s.run env task fresh token isCodeRight).2.bind AccountTask.takesFrom =
      some userId) : ∃ user ∈ s.users, user.isActiveAdmin = true ∧ user.id ≠ userId := by
  have hstart : ∀ {adminId target : Uuid} {body : PatchBody},
      (startWrites adminId target body).bind AccountTask.takesFrom = some userId →
        target = userId ∧ body.writes.any AccountWrite.takes = true := by
    intro adminId target body h
    rw [startWrites] at h
    split_ifs at h with hself
    · cases h
    · rw [bind_some, AccountTask.takesFrom] at h
      split_ifs at h with htakes
      exact ⟨some.inj h, htakes⟩
  cases task with
  | patchTarget adminId target body =>
    rw [Accounts.run] at hpasses
    cases hfind : s.users.find? fun user => user.id = target with
    | none =>
      rw [hfind] at hpasses
      cases hpasses
    | some row =>
      rw [hfind] at hpasses
      dsimp only at hpasses
      split_ifs at hpasses with hloses
      · cases hpasses
      · obtain ⟨rfl, htakes⟩ := hstart hpasses
        -- the account that is taken from is no administrator
        have hnotAdmin : row.isInstanceAdmin = false := by
          by_contra hrow
          rw [Bool.not_eq_false] at hrow
          simp only [losesAdmin, hrow, Bool.and_true, Bool.or_eq_true, decide_eq_true_eq,
            not_or] at hloses
          simp only [PatchBody.writes, any_append, Bool.or_eq_true] at htakes
          rcases htakes with (htakes | htakes) | htakes
          · cases hvalue : body.isInstanceAdmin with
            | none => simp [hvalue] at htakes
            | some value =>
              cases value with
              | true => simp [hvalue, AccountWrite.takes] at htakes
              | false => exact hloses.1 hvalue
          · cases hvalue : body.canManageWorkspaces with
            | none => simp [hvalue] at htakes
            | some value => simp [hvalue, AccountWrite.takes] at htakes
          · cases hvalue : body.deactivated with
            | none => simp [hvalue] at htakes
            | some value =>
              cases value with
              | true => exact hloses.2 hvalue
              | false => simp [hvalue, AccountWrite.takes] at htakes
        obtain ⟨user, huser, hactive⟩ := hadmin
        refine ⟨user, huser, hactive, fun heq => ?_⟩
        have hrow : row ∈ s.users := List.mem_of_find?_eq_some hfind
        have hid : row.id = target := by simpa using List.find?_some hfind
        rw [inj_on_of_nodup_map hkeys huser hrow (heq.trans hid.symm),
          AccountRow.isActiveAdmin, hnotAdmin] at hactive
        cases hactive
  | patchRemaining adminId target body =>
    rw [Accounts.run] at hpasses
    split_ifs at hpasses with hcount
    · cases hpasses
    · obtain ⟨rfl, -⟩ := hstart hpasses
      obtain ⟨user, huser, hother⟩ := countP_pos_iff.mp (Nat.pos_of_ne_zero hcount)
      rw [Bool.and_eq_true, bne_iff_ne] at hother
      exact ⟨user, huser, hother.1, hother.2⟩
  | _ => cases hchecks

end Accounts

/-! ### The machine -/

/-- **The machine of the doors**, over accounts with a primary key. -/
def administrators (env : AccountEnv) : Machine AccountLife AccountEvent where
  init s := (accountDoors env).init s ∧ s.HasKeys
  step := (accountDoors env).step

namespace AccountLife

variable {env : AccountEnv} {s s' : AccountLife} {e : AccountEvent}

/-- The account that a request is about to take the right from after a step in which it passes
the checks. -/
def passes (env : AccountEnv) (s : AccountLife) : AccountEvent → Option Uuid
  | .runs task fresh token isCodeRight =>
    if task.isWriting then none
    else (s.toAccounts.run env task fresh token isCodeRight).2.bind AccountTask.takesFrom
  | _ => none

/-- No request is about to take the right from an account. -/
def IsLeft (s : AccountLife) (userId : Uuid) : Prop :=
  ∀ task ∈ s.tasks, task.takesFrom ≠ some userId

/-- **The checks leave one.** Where other requests are about to take the right from somebody,
a request passes the checks only with an administrator left besides all of them. -/
def LeavesOne (env : AccountEnv) (s : AccountLife) (e : AccountEvent) : Prop :=
  ∀ userId ∈ passes env s e, (∀ task ∈ s.tasks, task.takesFrom = none) ∨
    ∃ user ∈ s.users, user.isActiveAdmin = true ∧ user.id ≠ userId ∧ s.IsLeft user.id

/-- **The invariant**: while a request is about to take the right from somebody, an administrator
is left. -/
structure Administered (s : AccountLife) : Prop where
  keys : s.HasKeys
  checking : ∀ task ∈ s.tasks, task.isChecking = true → s.HasAdministrator
  left : ∀ task ∈ s.tasks, task.takesFrom ≠ none →
    ∃ user ∈ s.users, user.isActiveAdmin = true ∧ s.IsLeft user.id

theorem Administered.congr (h : s.Administered) (hkeys : s'.HasKeys)
    (hadmins : ∀ user ∈ s.users, user.isActiveAdmin = true → s'.Administers user.id)
    (htasks : ∀ task ∈ s'.tasks, task ∈ s.tasks ∨
      task.takesFrom = none ∧ (task.isChecking = true → s'.HasAdministrator)) :
    s'.Administered where
  keys := hkeys
  checking task htask hchecks := by
    rcases htasks task htask with hold | ⟨-, hnew⟩
    · obtain ⟨user, huser, hactive⟩ := h.checking task hold hchecks
      obtain ⟨user', huser', -, hactive'⟩ := hadmins user huser hactive
      exact ⟨user', huser', hactive'⟩
    · exact hnew hchecks
  left task htask htakes := by
    rcases htasks task htask with hold | ⟨hnone, -⟩
    · obtain ⟨user, huser, hactive, hleft⟩ := h.left task hold htakes
      obtain ⟨user', huser', hid, hactive'⟩ := hadmins user huser hactive
      refine ⟨user', huser', hactive', fun other hother heq => ?_⟩
      rcases htasks other hother with hold | ⟨hnone, -⟩
      · exact hleft other hold (hid ▸ heq)
      · rw [hnone] at heq
        cases heq
    · exact absurd hnone htakes

theorem Administered.of_eq (h : s.Administered) (haccounts : s'.toAccounts = s.toAccounts)
    (htasks : s'.tasks = s.tasks) : s'.Administered := by
  refine h.congr ?_ (fun user huser hactive => ?_) fun task htask => .inl (htasks ▸ htask)
  · rw [haccounts]
    exact h.keys
  · rw [haccounts]
    exact ⟨user, huser, rfl, hactive⟩

/-- **A statement that does not write** keeps the invariant where the checks leave one. -/
theorem Administered.run (h : s.Administered) {task : AccountTask} {fresh : Uuid} {token : String}
    {isCodeRight : Bool} (htask : task ∈ s.tasks) (hfresh : s.IsFresh fresh)
    (hwriting : task.isWriting = false)
    (hok : LeavesOne env s (.runs task fresh token isCodeRight)) :
    Administered { s with
      toAccounts := (s.toAccounts.run env task fresh token isCodeRight).1
      tasks := s.tasks.erase task ++
        (s.toAccounts.run env task fresh token isCodeRight).2.toList } := by
  have hadmins : ∀ user ∈ s.users, user.isActiveAdmin = true →
      (s.toAccounts.run env task fresh token isCodeRight).1.Administers user.id :=
    fun user huser hactive => Accounts.administers_run hwriting huser hactive
  cases hnext : (s.toAccounts.run env task fresh token isCodeRight).2.bind
      AccountTask.takesFrom with
  | none =>
    refine h.congr (h.keys.run hwriting hfresh) hadmins fun other hother => ?_
    rcases mem_append.mp hother with hold | hnew
    · exact .inl (mem_of_mem_erase hold)
    · have hrun := mem_toList.mp hnew
      rw [hrun] at hnext
      refine .inr ⟨hnext, fun hchecks => ?_⟩
      have hadmin : s.HasAdministrator := by
        rcases Accounts.hasAdministrator_of_run hrun hchecks with hadmin | hchecking
        · exact hadmin
        · exact h.checking task htask hchecking
      obtain ⟨user, huser, hactive⟩ := hadmin
      obtain ⟨user', huser', -, hactive'⟩ := hadmins user huser hactive
      exact ⟨user', huser', hactive'⟩
  | some userId =>
    have hchecking := Accounts.isChecking_of_passes hwriting hnext
    have hpasses : userId ∈ passes env s (.runs task fresh token isCodeRight) := by
      rw [passes, hwriting, if_neg (by simp)]
      exact hnext
    -- an administrator besides all that requests are about to take the right from
    obtain ⟨user, huser, hactive, hne, hleft⟩ : ∃ user ∈ s.users, user.isActiveAdmin = true ∧
        user.id ≠ userId ∧ s.IsLeft user.id := by
      rcases hok userId hpasses with hnone | hother
      · obtain ⟨user, huser, hactive, hne⟩ :=
          Accounts.exists_of_passes h.keys hchecking (h.checking task htask hchecking) hnext
        refine ⟨user, huser, hactive, hne, fun task htask => ?_⟩
        rw [hnone task htask]
        exact nofun
      · exact hother
    obtain ⟨user', huser', hid, hactive'⟩ := hadmins user huser hactive
    obtain ⟨next, hrun, htakes⟩ := bind_eq_some_iff.mp hnext
    refine ⟨h.keys.run hwriting hfresh, fun _ _ _ => ⟨user', huser', hactive'⟩,
      fun _ _ _ => ⟨user', huser', hactive', fun other hother heq => ?_⟩⟩
    rcases mem_append.mp hother with hold | hnew
    · exact hleft other (mem_of_mem_erase hold) (hid ▸ heq)
    · rw [hrun] at hnew
      obtain rfl : other = next := mem_singleton.mp hnew
      rw [htakes, hid] at heq
      exact hne (some.inj heq).symm

/-- **A write keeps the invariant**, and an administrator. -/
theorem Administered.write (h : s.Administered) {userId : Uuid} {write : AccountWrite}
    {writes writes' : List AccountWrite} {since since' : Option ℕ}
    (htask : .patchWrites userId (write :: writes) since ∈ s.tasks)
    (hwrites : writes'.any AccountWrite.takes = writes.any AccountWrite.takes) :
    Administered { s with
      toAccounts := s.toAccounts.write userId write
      tasks := s.tasks.erase (.patchWrites userId (write :: writes) since) ++
        [.patchWrites userId writes' since'] } ∧
      (s.HasAdministrator → (s.toAccounts.write userId write).HasAdministrator) := by
  by_cases htakes : write.takes = true
  · -- the right is taken, and the administrator who is left is another one
    have hpending : AccountTask.takesFrom (.patchWrites userId (write :: writes) since) =
        some userId := by
      rw [AccountTask.takesFrom, any_cons, htakes]
      rfl
    obtain ⟨user, huser, hactive, hleft⟩ := h.left _ htask (by rw [hpending]; simp)
    have hne : user.id ≠ userId := by
      rintro rfl
      exact hleft _ htask hpending
    obtain ⟨user', huser', hid, hactive'⟩ :=
      Accounts.administers_write huser hactive write fun heq => absurd heq hne
    refine ⟨⟨h.keys.write write, fun _ _ _ => ⟨user', huser', hactive'⟩,
      fun _ _ _ => ⟨user', huser', hactive', fun other hother heq => ?_⟩⟩,
      fun _ => ⟨user', huser', hactive'⟩⟩
    rcases mem_append.mp hother with hold | hnew
    · exact hleft other (mem_of_mem_erase hold) (hid ▸ heq)
    · obtain rfl := mem_singleton.mp hnew
      rw [AccountTask.takesFrom] at heq
      split_ifs at heq
      rw [hid, Option.some.injEq] at heq
      exact hne heq.symm
  · rw [Bool.not_eq_true] at htakes
    have hadmins : ∀ user ∈ s.users, user.isActiveAdmin = true →
        (s.toAccounts.write userId write).Administers user.id :=
      fun user huser hactive => Accounts.administers_write huser hactive write fun _ => htakes
    refine ⟨?_, ?_⟩
    · -- what the request is still about to take, it was about to take before
      have hsame : AccountTask.takesFrom (.patchWrites userId writes' since') =
          AccountTask.takesFrom (.patchWrites userId (write :: writes) since) := by
        rw [AccountTask.takesFrom, AccountTask.takesFrom, any_cons, htakes, Bool.false_or,
          hwrites]
      refine ⟨h.keys.write write, fun task hmem hchecks => ?_, fun task hmem hpending => ?_⟩
      · rcases mem_append.mp hmem with hold | hnew
        · obtain ⟨user, huser, hactive⟩ := h.checking task (mem_of_mem_erase hold) hchecks
          obtain ⟨user', huser', -, hactive'⟩ := hadmins user huser hactive
          exact ⟨user', huser', hactive'⟩
        · obtain rfl := mem_singleton.mp hnew
          cases hchecks
      · have hbefore : ∃ before ∈ s.tasks, before.takesFrom = task.takesFrom := by
          rcases mem_append.mp hmem with hold | hnew
          · exact ⟨task, mem_of_mem_erase hold, rfl⟩
          · obtain rfl := mem_singleton.mp hnew
            exact ⟨_, htask, hsame.symm⟩
        obtain ⟨before, hbefore, heq⟩ := hbefore
        obtain ⟨user, huser, hactive, hleft⟩ := h.left before hbefore (heq ▸ hpending)
        obtain ⟨user', huser', hid, hactive'⟩ := hadmins user huser hactive
        refine ⟨user', huser', hactive', fun other hother heq => ?_⟩
        rcases mem_append.mp hother with hold | hnew
        · exact hleft other (mem_of_mem_erase hold) (hid ▸ heq)
        · obtain rfl := mem_singleton.mp hnew
          rw [hsame, hid] at heq
          exact hleft _ htask heq
    · rintro ⟨user, huser, hactive⟩
      obtain ⟨user', huser', -, hactive'⟩ := hadmins user huser hactive
      exact ⟨user', huser', hactive'⟩

/-- **The step lemma.** -/
theorem Administered.step (h : s.Administered) (hok : LeavesOne env s e)
    (hstep : (administrators env).step s e = some s') :
    s'.Administered ∧ (s.HasAdministrator → s'.HasAdministrator) := by
  have hsame : ∀ {accounts : Accounts} {tasks : List AccountTask}, accounts.users = s.users →
      (∀ task ∈ tasks, task ∈ s.tasks ∨ task.takesFrom = none ∧ task.isChecking = false) →
        Administered { s with toAccounts := accounts, tasks } ∧
          (s.HasAdministrator → accounts.HasAdministrator) := by
    intro accounts tasks husers htasks
    have hkeys : accounts.HasKeys := by
      rw [Accounts.HasKeys, husers]
      exact h.keys
    refine ⟨h.congr hkeys (fun user huser hactive => ?_) fun task htask => ?_, fun hadmin => ?_⟩
    · exact ⟨user, husers ▸ huser, rfl, hactive⟩
    · refine (htasks task htask).imp_right fun hnew => ⟨hnew.1, fun hchecks => ?_⟩
      rw [hnew.2] at hchecks
      cases hchecks
    · rwa [Accounts.HasAdministrator, husers]
  have harrive : ∀ {task : AccountTask}, task.takesFrom = none → task.isChecking = false →
      (s.arrive task).Administered ∧ (s.HasAdministrator → (s.arrive task).HasAdministrator) := by
    intro task htakes hchecks
    refine hsame rfl fun other hother => ?_
    rcases mem_append.mp hother with hold | hnew
    · exact .inl hold
    · obtain rfl := mem_singleton.mp hnew
      exact .inr ⟨htakes, hchecks⟩
  cases e with
  | tick elapsed =>
    obtain rfl := some.inj hstep
    exact hsame rfl fun _ htask => .inl htask
  | patch cookie userId body =>
    obtain rfl := some.inj hstep
    exact harrive rfl rfl
  | login email password =>
    obtain rfl := some.inj hstep
    exact harrive rfl rfl
  | second userId expires =>
    simp only [administrators, accountDoors, AccountLife.step, ite_none_right_eq_some,
      Option.some.injEq] at hstep
    obtain ⟨-, rfl⟩ := hstep
    exact harrive rfl rfl
  | provider claims =>
    obtain rfl := some.inj hstep
    exact harrive rfl rfl
  | issueReset email token =>
    obtain rfl := some.inj hstep
    refine hsame ?_ fun _ htask => .inl htask
    rw [Accounts.issueReset]
    split
    · rfl
    · split <;> rfl
  | redeemReset token newPassword =>
    obtain rfl := some.inj hstep
    have hadmins : ∀ user ∈ s.users, user.isActiveAdmin = true →
        (s.toAccounts.redeemReset env token newPassword).Administers user.id := by
      intro user huser hactive
      rw [Accounts.redeemReset]
      repeat' split
      all_goals
        first
        | exact ⟨user, huser, rfl, hactive⟩
        | exact Accounts.administers_updateUser huser hactive (fun _ => rfl) fun _ => hactive
    have hkeys : (s.toAccounts.redeemReset env token newPassword).HasKeys := by
      rw [Accounts.redeemReset]
      repeat' split
      all_goals
        first
        | exact h.keys
        | exact h.keys.updateUser fun _ => rfl
    refine ⟨h.congr hkeys hadmins fun task htask => .inl htask, ?_⟩
    rintro ⟨user, huser, hactive⟩
    obtain ⟨user', huser', -, hactive'⟩ := hadmins user huser hactive
    exact ⟨user', huser', hactive'⟩
  | touch sessionId =>
    obtain rfl := some.inj hstep
    exact hsame rfl fun _ htask => .inl htask
  | runs task fresh token isCodeRight =>
    simp only [administrators, accountDoors, AccountLife.step, ite_none_right_eq_some,
      Option.some.injEq] at hstep
    obtain ⟨⟨htask, hfresh⟩, rfl⟩ := hstep
    cases hwriting : task.isWriting with
    | false =>
      refine ⟨(h.run htask hfresh hwriting hok).of_eq rfl rfl, ?_⟩
      rintro ⟨user, huser, hactive⟩
      obtain ⟨user', huser', -, hactive'⟩ := Accounts.administers_run hwriting huser hactive
      exact ⟨user', huser', hactive'⟩
    | true =>
      obtain ⟨userId, writes, since, rfl⟩ : ∃ userId writes since,
          task = .patchWrites userId writes since := by
        cases task with
        | patchWrites userId writes since => exact ⟨userId, writes, since, rfl⟩
        | _ => cases hwriting
      rcases writes with _ | ⟨write, writes⟩
      · -- the answer
        have hdone := @hsame s.toAccounts
          (s.tasks.erase (.patchWrites userId [] since) ++ [] ) rfl fun task hmem =>
            .inl (mem_of_mem_erase (append_nil _ ▸ hmem))
        exact ⟨hdone.1.of_eq rfl rfl, hdone.2⟩
      · obtain ⟨writes', since', hrun, hwrites⟩ :=
          @Accounts.run_patchWrites env s.toAccounts fresh token isCodeRight userId write writes
            since
        obtain ⟨hinv, hadmin⟩ := @Administered.write s h userId write writes writes' since since'
          htask hwrites
        rw [hrun]
        exact ⟨hinv.of_eq rfl rfl, hadmin⟩
  | fails task =>
    simp only [administrators, accountDoors, AccountLife.step, ite_none_right_eq_some,
      Option.some.injEq] at hstep
    obtain ⟨-, rfl⟩ := hstep
    exact hsame rfl fun _ hmem => .inl (mem_of_mem_erase hmem)

theorem administered_of_reachesWhen (h : (administrators env).ReachesWhen (LeavesOne env) s) :
    s.Administered := by
  refine h.invariant ?_ fun _ _ _ hinv hok hstep => (hinv.step hok hstep).1
  rintro s ⟨⟨htasks, -, -⟩, hkeys⟩
  exact ⟨hkeys, by simp [htasks], by simp [htasks]⟩

/-- **An instance keeps an administrator** once it has one, in every run in which the checks
leave one. -/
theorem hasAdministrator_of_reachesWhen
    (h : (administrators env).ReachesWhen (LeavesOne env) s)
    (hrun : Relation.ReflTransGen ((administrators env).Next (LeavesOne env)) s s')
    (hadmin : s.HasAdministrator) : s'.HasAdministrator := by
  obtain ⟨s₀, h₀, hbefore⟩ := h
  induction hrun with
  | refl => exact hadmin
  | tail hsteps hnext ih =>
    obtain ⟨e, hok, hstep⟩ := hnext
    have hinv := administered_of_reachesWhen ⟨s₀, h₀, hbefore.trans hsteps⟩
    exact (hinv.step hok hstep).2 ih

/-! ### Two administrators -/

instance (s : AccountLife) (e : AccountEvent) : Decidable (LeavesOne env s e) :=
  inferInstanceAs (Decidable (∀ userId ∈ passes env s e, _ ∨ ∃ user ∈ s.users, _ ∧ _ ∧
    ∀ task ∈ s.tasks, _))

instance (s : Accounts) : Decidable s.HasAdministrator :=
  inferInstanceAs (Decidable (∃ user ∈ s.users, _))

def twoAdmins : AccountLife where
  now := 0
  users := [⟨⟨1, some "root", "Root", false, none⟩, some "root's password", true, true, none⟩,
    ⟨⟨2, some "ada", "Ada", false, none⟩, some "ada's password", true, true, none⟩]
  sessions := [⟨10, 1, "root's token", none, sessionTtl, 0⟩,
    ⟨20, 2, "ada's token", none, sessionTtl, 0⟩]
  secondFactors := []
  oidcIdentities := []
  passwordResetTokens := []
  tickets := []
  reactivations := fun _ => 0
  tasks := []
  shut := ∅
  out := ∅

theorem twoAdmins_init : (administrators plainEnv).init twoAdmins :=
  ⟨⟨rfl, rfl, rfl⟩, show [1, 2].Nodup by decide⟩

def demotes (token : String) (adminId userId : Uuid) : List AccountEvent :=
  let body : PatchBody := ⟨some false, none, none⟩
  [.patch token userId body, .runs (.patchSession token userId body) 100 "" false,
    .runs (.patchAdmin adminId userId body) 100 "" false,
    .runs (.patchTarget adminId userId body) 100 "" false,
    .runs (.patchRemaining adminId userId body) 100 "" false]

def demoted (userId : Uuid) : AccountEvent :=
  .runs (.patchWrites userId [.isInstanceAdmin false] none) 100 "" false

theorem hasAdministrator_of_reachesWhen_demoted :
    ∃ s, Relation.ReflTransGen ((administrators plainEnv).Next (LeavesOne plainEnv)) twoAdmins s ∧
      s.users.countP AccountRow.isActiveAdmin = 1 ∧ s.HasAdministrator := by
  obtain ⟨s, hs⟩ : ∃ s, (administrators plainEnv).runWhen (LeavesOne plainEnv) twoAdmins
      (demotes "root's token" 1 2 ++ [demoted 2]) = some s :=
    isSome_iff_exists.mp (by decide)
  have hcount : ((administrators plainEnv).runWhen (LeavesOne plainEnv) twoAdmins
      (demotes "root's token" 1 2 ++ [demoted 2])).map
        (fun s => s.users.countP AccountRow.isActiveAdmin) = some 1 := by decide
  rw [hs, map_some, Option.some.injEq] at hcount
  have hrun := Machine.reflTransGen_of_runWhen hs
  exact ⟨s, hrun, hcount,
    hasAdministrator_of_reachesWhen (.start twoAdmins_init) hrun (by decide)⟩

/-- **Two administrators demote each other**, and nobody is left. -/
theorem demoted_each_other : ¬ ∀ s s', (administrators plainEnv).Reaches s →
    Relation.ReflTransGen ((administrators plainEnv).Next fun _ _ => True) s s' →
      s.HasAdministrator → s'.HasAdministrator := by
  intro h
  let events := demotes "root's token" 1 2 ++ demotes "ada's token" 2 1 ++ [demoted 2, demoted 1]
  obtain ⟨s, hs⟩ : ∃ s, (administrators plainEnv).run twoAdmins events = some s :=
    isSome_iff_exists.mp (by decide)
  have hnobody : ((administrators plainEnv).run twoAdmins events).map
      (fun s => s.users.countP AccountRow.isActiveAdmin) = some 0 := by decide
  rw [hs, map_some, Option.some.injEq] at hnobody
  obtain ⟨user, huser, hactive⟩ := h twoAdmins s (.start twoAdmins_init)
    (Machine.reflTransGen_of_runWhen hs) (by decide)
  have hpos := countP_pos_iff.mpr ⟨user, huser, hactive⟩
  omega

end AccountLife

end Sone
