import Sone.Account.Invitations

/-!
# The first account

The first account of an instance administers it, and two paths of `auth/registration.ts` make one.
`register` makes the account an administrator where there is no account yet, and
`bootstrapInstance` always, where there is no workspace yet. The latter takes a lock before it
looks; the former does not, and neither sees what the other has not committed.

`firstAccounts` is the machine of any number of these transactions on an empty database, statement
by statement: what a transaction writes is seen by the others from its commit on, and an address
that is being inserted waits for the transaction that inserts it. What `register` asks of an
invitation before is left out; it can only make it throw. `both_first` has two sign-ups that each
see nobody, and `firstOnly_of_reachesWhen` says that nothing else goes wrong.
-/

namespace Sone

open Option Function

namespace FirstAccount

open Invitations

/-- `users` -/
structure User where
  id : ℕ
  email : String
  isInstanceAdmin : Bool
  deriving DecidableEq

inductive Origin where
  | register
  /-- `bootstrapInstance`, with the key of setup it may have to match. -/
  | bootstrap (gate : Option ℕ)
  deriving DecidableEq

inductive Place where
  /-- `register`: the account of the address, and whether there is any. -/
  | existing (email : String)
  | anybodyYet (email : String)
  /-- `bootstrapInstance`: `pg_advisory_xact_lock`, and the count of the workspaces. -/
  | lock (email : String) (gate : Option ℕ) (setupKey : String)
  | count (email : String) (gate : Option ℕ) (setupKey : String)
  /-- The inserts, of either. -/
  | insertUser (origin : Origin) (email : String) (isInstanceAdmin : Bool)
  | insertWorkspace (origin : Origin) (user : User)
  | commit (origin : Origin) (user : User) (workspace : ℕ)
  deriving DecidableEq

/-- **An account is made administrator** by no administrator. -/
structure Making where
  origin : Origin
  user : ℕ
  /-- The accounts that had the right then. -/
  before : List ℕ
  deriving DecidableEq

/-- The tables, the transactions, the advisory lock, the addresses that are being inserted, the
keys of setup, and who was made administrator. -/
structure State where
  users : List User
  workspaces : List ℕ
  transactions : ℕ → Option Place
  advisory : Option ℕ
  inserting : String → Option ℕ
  gates : ℕ → Option String
  made : List Making

inductive Event where
  | register (call : ℕ) (email : String)
  | bootstrap (call : ℕ) (email : String) (gate : Option ℕ) (setupKey : String)
  /-- `openIfNeeded`, with the key that is drawn. -/
  | openGate (gate : ℕ) (key : String)
  /-- The next statement of a transaction, with the id that is drawn where it inserts. -/
  | next (call fresh : ℕ)
  | rollback (call : ℕ)
  deriving DecidableEq

variable (env : InviteEnv)

def State.goes (s : State) (call : ℕ) (place : Place) : State :=
  { s with transactions := Function.update s.transactions call (some place) }

/-- A transaction is over, and its locks are released. -/
def State.ends (s : State) (call : ℕ) : State :=
  { s with
    transactions := Function.update s.transactions call none
    advisory := s.advisory.filter (· ≠ call)
    inserting := fun email => (s.inserting email).filter (· ≠ call) }

/-- `gate.close()` -/
def State.closes (s : State) : Option ℕ → State
  | none => s
  | some gate => { s with gates := Function.update s.gates gate none }

/-- `gate === undefined || gate.matches(setupKey)` -/
def State.matchesKey (s : State) (gate : Option ℕ) (setupKey : String) : Bool :=
  gate.all fun gate => s.gates gate = some setupKey

def State.admins (s : State) : List ℕ := (s.users.filter (·.isInstanceAdmin)).map (·.id)

/-- What a transaction has written is written for all. -/
def State.applies (s : State) (origin : Origin) (user : User) (workspace : ℕ) : State :=
  { s with
    users := s.users ++ [user]
    workspaces := s.workspaces ++ [workspace]
    made := s.made ++
      if user.isInstanceAdmin then [{ origin, user := user.id, before := s.admins }] else [] }

/-- The next statement of a transaction, or `none` where it waits or throws. -/
def next (s : State) (call fresh : ℕ) : Place → Option State
  | .existing email =>
    if s.users.any fun user => env.lower user.email = email then none
    else some (s.goes call (.anybodyYet email))
  | .anybodyYet email => some (s.goes call (.insertUser .register email s.users.isEmpty))
  | .lock email gate setupKey =>
    if s.advisory = none then
      some { s.goes call (.count email gate setupKey) with advisory := some call }
    else none
  | .count email gate setupKey =>
    if s.workspaces ≠ [] then some ((s.closes gate).ends call)
    else if s.matchesKey gate setupKey then
      some (s.goes call (.insertUser (.bootstrap gate) email true))
    else none
  | .insertUser origin email isInstanceAdmin =>
    if (s.users.any fun user => env.lower user.email = env.lower email) ∨
        s.inserting (env.lower email) ≠ none ∨ fresh ∈ s.users.map (·.id) then none
    else
      some { s.goes call (.insertWorkspace origin { id := fresh, email, isInstanceAdmin }) with
        inserting := Function.update s.inserting (env.lower email) (some call) }
  | .insertWorkspace origin user =>
    let s := s.goes call (.commit origin user fresh)
    match origin with
    | .register => some s
    | .bootstrap gate => some (s.closes gate)
  | .commit origin user workspace => some ((s.applies origin user workspace).ends call)

/-- The state after an event, where it can happen. -/
def step (s : State) : Event → Option State
  | .register call email =>
    let email := address env email
    if s.transactions call = none ∧ '@' ∈ email.toList ∧ JsString.length email ≤ 320 then
      some (s.goes call (.existing email))
    else none
  | .bootstrap call email gate setupKey =>
    if s.transactions call = none then some (s.goes call (.lock (address env email) gate setupKey))
    else none
  | .openGate gate key =>
    some { s with
      gates := Function.update s.gates gate (if s.workspaces = [] then some key else none) }
  | .next call fresh => (s.transactions call).bind (next env s call fresh)
  | .rollback call => if s.transactions call = none then none else some (s.ends call)

/-- **The machine of the first accounts.** It starts with nothing. -/
def firstAccounts : Machine State Event where
  init s := s.users = [] ∧ s.workspaces = [] ∧ (∀ call, s.transactions call = none) ∧
    s.advisory = none ∧ (∀ email, s.inserting email = none) ∧ s.made = []
  step := step env

/-- **What should hold**: one account at most is made administrator so, and `bootstrapInstance`
makes none where there is one. -/
structure FirstOnly (s : State) : Prop where
  one : s.made.length ≤ 1
  bootstrap : ∀ making ∈ s.made, making.origin ≠ .register → making.before = []

/-! ### Who makes an administrator -/

/-- The address a transaction is making an administrator of, once it has found that there is none
before. -/
def Place.makes : Place → Option (Origin × String)
  | insertUser origin email isInstanceAdmin =>
    if isInstanceAdmin then some (origin, email) else none
  | insertWorkspace origin user => if user.isInstanceAdmin then some (origin, user.email) else none
  | commit origin user _ => if user.isInstanceAdmin then some (origin, user.email) else none
  | _ => none

/-- The address that the next statement of a transaction finds to be the first. -/
def decides (s : State) (call : ℕ) : Option (Origin × String) :=
  match s.transactions call with
  | some (.anybodyYet email) => if s.users.isEmpty then some (.register, email) else none
  | some (.count email gate setupKey) =>
    if s.workspaces = [] ∧ s.matchesKey gate setupKey then some (.bootstrap gate, email) else none
  | _ => none

/-- **First ones do not overlap**: where one of the two is a sign-up, a transaction finds to be
the first only while no other that has is under way, unless both are for one address. -/
def Apart (s : State) : Event → Prop
  | .next call _ => ∀ origin email, decides s call = some (origin, email) →
      ∀ other place, s.transactions other = some place →
        ∀ origin' email', place.makes = some (origin', email') →
          origin = .register ∨ origin' = .register → env.lower email' = env.lower email
  | _ => True

def Place.inserted : Place → Option User
  | insertWorkspace _ user => some user
  | commit _ user _ => some user
  | _ => none

/-- Whether a transaction makes an account that is not the first. -/
def Place.isPlain : Place → Bool
  | insertUser _ _ isInstanceAdmin => !isInstanceAdmin
  | insertWorkspace _ user => !user.isInstanceAdmin
  | commit _ user _ => !user.isInstanceAdmin
  | _ => false

/-- Whether a transaction is past the advisory lock. -/
def Place.isLocked : Place → Bool
  | count .. => true
  | insertUser origin .. => origin ≠ .register
  | insertWorkspace origin _ => origin ≠ .register
  | commit origin .. => origin ≠ .register
  | _ => false

/-- **The invariant**: before an administrator is made there is nothing, and who makes one does so
for one address; from then on, who still means to cannot insert it. -/
structure Inv (s : State) : Prop where
  firstOnly : FirstOnly s
  empty : s.made = [] ↔ s.users = []
  workspaces : s.workspaces = [] ↔ s.users = []
  plain : ∀ call place, s.transactions call = some place → place.isPlain = true → s.users ≠ []
  locked : ∀ call place, s.transactions call = some place → place.isLocked = true →
    s.advisory = some call
  holds : ∀ call place, s.transactions call = some place → ∀ user ∈ place.inserted,
    s.inserting (env.lower user.email) = some call
  same : s.users = [] → ∀ call place, s.transactions call = some place →
    ∀ other place', s.transactions other = some place' → ∀ making ∈ place.makes,
      ∀ making' ∈ place'.makes, env.lower making'.2 = env.lower making.2
  late : s.users ≠ [] → ∀ call place, s.transactions call = some place → ∀ making ∈ place.makes,
    place.inserted = none ∧ ∃ user ∈ s.users, env.lower user.email = env.lower making.2

variable {env} {s s' : State}

theorem Place.isLocked_of_makes {place : Place} {making : Origin × String} {gate : Option ℕ}
    (h : making ∈ place.makes) (horigin : making.1 = .bootstrap gate) : place.isLocked = true := by
  cases place with
  | insertUser | insertWorkspace | commit =>
    rw [makes] at h
    split_ifs at h
    · rw [← some.inj h] at horigin
      refine decide_eq_true fun hregister => ?_
      cases hregister.symm.trans horigin
    · cases h
  | _ => cases h

theorem Place.email_of_makes {place : Place} {making : Origin × String} {user : User}
    (h : making ∈ place.makes) (huser : user ∈ place.inserted) : user.email = making.2 := by
  cases place with
  | insertWorkspace | commit =>
    obtain rfl := some.inj huser
    rw [makes] at h
    split_ifs at h
    · rw [← some.inj h]
    · cases h
  | _ => cases huser

theorem transactions_ends {call other : ℕ} {place : Place}
    (h : (s.ends call).transactions other = some place) :
    other ≠ call ∧ s.transactions other = some place := by
  have hupdate : Function.update s.transactions call none other = some place := h
  by_cases heq : other = call
  · rw [heq, update_self] at hupdate
    cases hupdate
  · rw [update_of_ne heq] at hupdate
    exact ⟨heq, hupdate⟩

/-- **A transaction is over**, and the others are where they were. -/
theorem Inv.ends (h : Inv env s) (call : ℕ) : Inv env (s.ends call) where
  firstOnly := ⟨h.firstOnly.one, h.firstOnly.bootstrap⟩
  empty := h.empty
  workspaces := h.workspaces
  plain other place hplace := h.plain other place (transactions_ends hplace).2
  locked other place hplace hlocked := by
    obtain ⟨hne, hplace⟩ := transactions_ends hplace
    have hheld := h.locked other place hplace hlocked
    simp [State.ends, hheld, Option.filter, hne]
  holds other place hplace user huser := by
    obtain ⟨hne, hplace⟩ := transactions_ends hplace
    have hheld := h.holds other place hplace user huser
    simp [State.ends, hheld, Option.filter, hne]
  same hempty other place hplace other' place' hplace' :=
    h.same hempty other place (transactions_ends hplace).2 other' place'
      (transactions_ends hplace').2
  late hne other place hplace := h.late hne other place (transactions_ends hplace).2

/-- **A transaction goes on** to a statement, where this is as the invariant has it. -/
theorem Inv.goes (h : Inv env s) {call : ℕ} {place : Place}
    (husers : s'.users = s.users) (hworkspaces : s'.workspaces = s.workspaces)
    (hmade : s'.made = s.made)
    (htransactions : s'.transactions = Function.update s.transactions call (some place))
    (hadvisory : ∀ other, s.advisory = some other → s'.advisory = some other)
    (hinserting : ∀ email other, s.inserting email = some other → s'.inserting email = some other)
    (hplain : place.isPlain = true → s.users ≠ [])
    (hlocked : place.isLocked = true → s'.advisory = some call)
    (hholds : ∀ user ∈ place.inserted, s'.inserting (env.lower user.email) = some call)
    (hsame : s.users = [] → ∀ making ∈ place.makes, ∀ other place',
      s.transactions other = some place' → ∀ making' ∈ place'.makes,
        env.lower making'.2 = env.lower making.2)
    (hlate : s.users ≠ [] → ∀ making ∈ place.makes,
      place.inserted = none ∧ ∃ user ∈ s.users, env.lower user.email = env.lower making.2) :
    Inv env s' := by
  have hcases : ∀ {other place'}, s'.transactions other = some place' →
      other = call ∧ place' = place ∨ s.transactions other = some place' := by
    intro other place' hplace
    rw [htransactions] at hplace
    by_cases heq : other = call
    · rw [heq, update_self, Option.some.injEq] at hplace
      exact .inl ⟨heq, hplace.symm⟩
    · rw [update_of_ne heq] at hplace
      exact .inr hplace
  refine ⟨⟨hmade ▸ h.firstOnly.one, hmade ▸ h.firstOnly.bootstrap⟩, ?_, ?_,
    fun other place' hplace hisPlain => ?_, fun other place' hplace hisLocked => ?_,
    fun other place' hplace user huser => ?_, fun hempty first place' hplace second place'' hplace'
      making hmaking making' hmaking' => ?_, fun hne other place' hplace making hmaking => ?_⟩
  · rw [hmade, husers]
    exact h.empty
  · rw [hworkspaces, husers]
    exact h.workspaces
  · rw [husers]
    rcases hcases hplace with ⟨-, rfl⟩ | hold
    · exact hplain hisPlain
    · exact h.plain other place' hold hisPlain
  · rcases hcases hplace with ⟨rfl, rfl⟩ | hold
    · exact hlocked hisLocked
    · exact hadvisory other (h.locked other place' hold hisLocked)
  · rcases hcases hplace with ⟨rfl, rfl⟩ | hold
    · exact hholds user huser
    · exact hinserting _ other (h.holds other place' hold user huser)
  · rw [husers] at hempty
    rcases hcases hplace with ⟨rfl, rfl⟩ | hold
    · rcases hcases hplace' with ⟨-, rfl⟩ | hold'
      · rw [mem_unique hmaking hmaking']
      · exact hsame hempty making hmaking second place'' hold' making' hmaking'
    · rcases hcases hplace' with ⟨-, rfl⟩ | hold'
      · exact (hsame hempty making' hmaking' first place' hold making hmaking).symm
      · exact h.same hempty first place' hold second place'' hold' making hmaking making' hmaking'
  · rw [husers] at hne ⊢
    rcases hcases hplace with ⟨-, rfl⟩ | hold
    · exact hlate hne making hmaking
    · exact h.late hne other place' hold making hmaking

theorem Inv.gates (h : Inv env s) (gates : ℕ → Option String) : Inv env { s with gates } :=
  ⟨⟨h.firstOnly.one, h.firstOnly.bootstrap⟩, h.empty, h.workspaces, h.plain, h.locked, h.holds,
    h.same, h.late⟩

theorem Inv.closes (h : Inv env s) (gate : Option ℕ) : Inv env (s.closes gate) := by
  cases gate with
  | none => exact h
  | some gate => exact h.gates _

/-- **A commit** makes the first administrator, or an account that is none. -/
theorem Inv.applies (h : Inv env s) {call workspace : ℕ} {origin : Origin} {user : User}
    (hplace : s.transactions call = some (.commit origin user workspace)) :
    Inv env ((s.applies origin user workspace).ends call) := by
  have hne : s.users ++ [user] ≠ [] := by simp
  have hwrittenEnds : ∀ {other place}, ((s.applies origin user workspace).ends call).transactions
      other = some place → other ≠ call ∧ s.transactions other = some place :=
    fun hplace => transactions_ends hplace
  have hfirst : FirstOnly (s.applies origin user workspace) := by
    rw [State.applies]
    split_ifs with hadmin
    · have hempty : s.users = [] := by
        by_contra hnotEmpty
        have hlate := h.late hnotEmpty call _ hplace (origin, user.email) (by
          rw [Place.makes, if_pos hadmin]
          rfl)
        cases hlate.1
      have hmade : s.made = [] := h.empty.mpr hempty
      have hadmins : s.admins = [] := by rw [State.admins, hempty]; rfl
      refine ⟨by simp [hmade], fun making hmaking _ => ?_⟩
      rw [hmade] at hmaking
      rw [List.mem_singleton.mp hmaking]
      exact hadmins
    · rw [List.append_nil]
      exact ⟨h.firstOnly.one, h.firstOnly.bootstrap⟩
  have hmade : (s.applies origin user workspace).made ≠ [] := by
    rw [State.applies]
    dsimp only
    split_ifs with hadmin
    · simp
    · rw [List.append_nil, Ne, h.empty]
      refine h.plain call _ hplace ?_
      rw [Place.isPlain, Bool.not_eq_true']
      exact Bool.eq_false_iff.mpr hadmin
  refine Inv.mk ⟨hfirst.one, hfirst.bootstrap⟩ ⟨fun hnil => absurd hnil hmade,
      fun hnil => absurd hnil hne⟩ ⟨fun hnil => absurd hnil (by simp [State.ends, State.applies]),
      fun hnil => absurd hnil hne⟩ (fun _ _ _ _ => hne) (fun other place hother hlocked => ?_)
    (fun other place hother account haccount => ?_) (fun hnil => absurd hnil hne)
    (fun _ other place hother making hmaking => ?_)
  · obtain ⟨hother', hold⟩ := hwrittenEnds hother
    have hheld := h.locked other place hold hlocked
    simp [State.ends, State.applies, hheld, Option.filter, hother']
  · obtain ⟨hother', hold⟩ := hwrittenEnds hother
    have hheld := h.holds other place hold account haccount
    simp [State.ends, State.applies, hheld, Option.filter, hother']
  · obtain ⟨hother', hold⟩ := hwrittenEnds hother
    by_cases hempty : s.users = []
    · -- who means the same address has not inserted it
      have hadmin : user.isInstanceAdmin = true := by
        by_contra hnot
        refine h.plain call _ hplace ?_ hempty
        rw [Place.isPlain, Bool.not_eq_true']
        exact Bool.eq_false_iff.mpr hnot
      have hsame := h.same hempty call _ hplace other place hold (origin, user.email) (by
        rw [Place.makes, if_pos hadmin]
        rfl) making hmaking
      refine ⟨?_, user, List.mem_append_right _ (List.mem_singleton.mpr rfl), hsame.symm⟩
      by_contra hinserted
      obtain ⟨account, haccount⟩ := ne_none_iff_exists'.mp hinserted
      have hemail := Place.email_of_makes hmaking haccount
      have hheld := h.holds other place hold account haccount
      rw [hemail, hsame, h.holds call _ hplace user rfl, Option.some.injEq] at hheld
      exact hother' hheld.symm
    · obtain ⟨hinserted, account, haccount, hemail⟩ := h.late hempty other place hold making hmaking
      exact ⟨hinserted, account, List.mem_append_left _ haccount, hemail⟩

theorem Inv.reads (h : Inv env s) {call : ℕ} {place : Place} (hplain : place.isPlain = false)
    (hlocked : place.isLocked = true → s.advisory = some call) (hinserted : place.inserted = none)
    (hmakes : place.makes = none) : Inv env (s.goes call place) := by
  refine h.goes rfl rfl rfl rfl (fun _ h => h) (fun _ _ h => h) (fun hisPlain => ?_) hlocked
    (by simp [hinserted]) (by simp [hmakes]) (by simp [hmakes])
  rw [hplain] at hisPlain
  cases hisPlain

/-- **The next statement of a transaction** keeps the invariant. -/
theorem Inv.next (h : Inv env s) {call fresh : ℕ} {place : Place}
    (hplace : s.transactions call = some place) (hok : Apart env s (.next call fresh))
    (hnext : FirstAccount.next env s call fresh place = some s') : Inv env s' := by
  cases place with
  | existing email =>
    simp only [FirstAccount.next, ite_none_left_eq_some, Option.some.injEq] at hnext
    obtain ⟨-, rfl⟩ := hnext
    exact h.reads rfl (by simp [Place.isLocked]) rfl rfl
  | anybodyYet email =>
    obtain rfl := some.inj hnext
    refine h.goes rfl rfl rfl rfl (fun _ h => h) (fun _ _ h => h) (fun hisPlain => ?_)
      (by simp [Place.isLocked]) (by simp [Place.inserted]) (fun hempty making hmaking => ?_)
      (fun hne making hmaking => ?_)
    · simpa [Place.isPlain] using hisPlain
    · have hdecides : decides s call = some (.register, email) := by
        rw [decides, hplace]
        simp [hempty]
      have hsame : making = (.register, email) := by
        simpa [Place.makes, hempty] using hmaking.symm
      subst hsame
      exact fun other place' hother making' hmaking' =>
        hok _ _ hdecides other place' hother making'.1 making'.2 hmaking' (.inl rfl)
    · simp [Place.makes, hne] at hmaking
  | lock email gate setupKey =>
    simp only [FirstAccount.next, ite_none_right_eq_some, Option.some.injEq] at hnext
    obtain ⟨hfree, rfl⟩ := hnext
    refine h.goes rfl rfl rfl rfl (fun other hother => ?_) (fun _ _ h => h)
      (by simp [Place.isPlain]) (fun _ => rfl) (by simp [Place.inserted]) (by simp [Place.makes])
      (by simp [Place.makes])
    rw [hfree] at hother
    cases hother
  | count email gate setupKey =>
    simp only [FirstAccount.next] at hnext
    split_ifs at hnext with hany hmatches
    · obtain rfl := some.inj hnext
      exact (h.closes gate).ends call
    · obtain rfl := some.inj hnext
      rw [not_not] at hany
      have hheld := h.locked call _ hplace rfl
      refine h.goes rfl rfl rfl rfl (fun _ h => h) (fun _ _ h => h) (by simp [Place.isPlain])
        (fun _ => hheld) (by simp [Place.inserted]) (fun hempty making hmaking => ?_)
        (fun hne => absurd (h.workspaces.mp hany) hne)
      have hdecides : decides s call = some (.bootstrap gate, email) := by
        rw [decides, hplace]
        simp [hany, hmatches]
      obtain rfl := some.inj hmaking
      intro other place' hother making' hmaking'
      cases horigin : making'.1 with
      | register =>
        exact hok _ _ hdecides other place' hother making'.1 making'.2 hmaking' (.inr horigin)
      | bootstrap gate' =>
        -- the lock lets no other that bootstraps be here
        have hsame := h.locked other place' hother
          (Place.isLocked_of_makes hmaking' horigin)
        rw [hheld, Option.some.injEq] at hsame
        rw [← hsame, hplace, Option.some.injEq] at hother
        rw [← hother] at hmaking'
        cases hmaking'
  | insertUser origin email isInstanceAdmin =>
    simp only [FirstAccount.next, ite_none_left_eq_some, Option.some.injEq, not_or] at hnext
    obtain ⟨⟨hunique, hfree, -⟩, rfl⟩ := hnext
    rw [not_not] at hfree
    have hmakes : ∀ making, making ∈ Place.makes (.insertWorkspace origin
        { id := fresh, email, isInstanceAdmin }) →
          making ∈ Place.makes (.insertUser origin email isInstanceAdmin) := fun _ h => h
    refine h.goes rfl rfl rfl rfl (fun _ h => h) (fun key other hother => ?_)
      (fun hisPlain => h.plain call _ hplace hisPlain)
      (fun hisLocked => h.locked call _ hplace hisLocked) (fun user huser => ?_)
      (fun hempty making hmaking other place' hother making' hmaking' =>
        h.same hempty call _ hplace other place' hother making (hmakes making hmaking) making'
          hmaking')
      (fun hne making hmaking => ?_)
    · dsimp only
      rw [update_of_ne]
      · exact hother
      · rintro rfl
        rw [hfree] at hother
        cases hother
    · obtain rfl := some.inj huser
      exact update_self ..
    · obtain ⟨-, user, huser, hemail⟩ := h.late hne call _ hplace making (hmakes making hmaking)
      have hsame : making.2 = email := by
        have hmaking := hmakes making hmaking
        rw [Place.makes] at hmaking
        split_ifs at hmaking
        · rw [← some.inj hmaking]
        · cases hmaking
      rw [hsame] at hemail
      exact absurd (List.any_eq_true.mpr ⟨user, huser, decide_eq_true hemail⟩) hunique
  | insertWorkspace origin user =>
    have hcommit : Inv env (s.goes call (.commit origin user fresh)) := by
      refine h.goes rfl rfl rfl rfl (fun _ h => h) (fun _ _ h => h)
        (fun hisPlain => h.plain call _ hplace hisPlain)
        (fun hisLocked => h.locked call _ hplace hisLocked)
        (fun account haccount => h.holds call _ hplace account haccount)
        (fun hempty making hmaking other place' hother making' hmaking' =>
          h.same hempty call _ hplace other place' hother making hmaking making' hmaking')
        (fun hne making hmaking => ?_)
      cases (h.late hne call _ hplace making hmaking).1
    cases origin with
    | register =>
      obtain rfl := some.inj hnext
      exact hcommit
    | bootstrap gate =>
      obtain rfl := some.inj hnext
      exact hcommit.closes gate
  | commit origin user workspace =>
    obtain rfl := some.inj hnext
    exact h.applies hplace

/-- **The step lemma.** -/
theorem Inv.step (h : Inv env s) {e : Event} (hok : Apart env s e)
    (hstep : (firstAccounts env).step s e = some s') : Inv env s' := by
  cases e with
  | register call email =>
    simp only [firstAccounts, FirstAccount.step, ite_none_right_eq_some,
      Option.some.injEq] at hstep
    obtain ⟨-, rfl⟩ := hstep
    exact h.reads rfl (by simp [Place.isLocked]) rfl rfl
  | bootstrap call email gate setupKey =>
    simp only [firstAccounts, FirstAccount.step, ite_none_right_eq_some,
      Option.some.injEq] at hstep
    obtain ⟨-, rfl⟩ := hstep
    exact h.reads rfl (by simp [Place.isLocked]) rfl rfl
  | openGate gate key =>
    obtain rfl := some.inj hstep
    exact h.gates _
  | next call fresh =>
    obtain ⟨place, hplace, hnext⟩ := bind_eq_some_iff.mp hstep
    exact h.next hplace hok hnext
  | rollback call =>
    simp only [firstAccounts, FirstAccount.step, ite_none_left_eq_some,
      Option.some.injEq] at hstep
    obtain ⟨-, rfl⟩ := hstep
    exact h.ends call

/-- **One first administrator**, in every run in which first ones do not overlap. -/
theorem firstOnly_of_reachesWhen (h : (firstAccounts env).ReachesWhen (Apart env) s) :
    FirstOnly s := by
  have hinv : Inv env s := by
    refine h.invariant ?_ fun _ _ _ hinv hok hstep => hinv.step hok hstep
    rintro s ⟨husers, hworkspaces, hnone, -, -, hmade⟩
    have hno : ∀ {call place}, s.transactions call = some place → False := by
      intro call place hplace
      rw [hnone call] at hplace
      cases hplace
    exact ⟨⟨by simp [hmade], by simp [hmade]⟩, by simp [hmade, husers],
      by simp [hworkspaces, husers], fun _ _ hplace => (hno hplace).elim,
      fun _ _ hplace => (hno hplace).elim, fun _ _ hplace => (hno hplace).elim,
      fun _ _ _ hplace => (hno hplace).elim, fun hne => absurd husers hne⟩
  exact hinv.firstOnly

/-! ### Two sign-ups -/

theorem transactions_next {call fresh other : ℕ} {place : Place}
    (h : FirstAccount.next env s call fresh place = some s') (hne : other ≠ call) :
    s'.transactions other = s.transactions other := by
  have hcloses : ∀ (s : State) (gate : Option ℕ),
      (s.closes gate).transactions = s.transactions := by
    intro s gate
    cases gate <;> rfl
  cases place with
  | existing | anybodyYet | lock | insertUser =>
    simp only [FirstAccount.next, ite_none_left_eq_some, ite_none_right_eq_some,
      Option.some.injEq] at h
    obtain ⟨-, rfl⟩ := h
    exact update_of_ne hne ..
  | count email gate setupKey =>
    simp only [FirstAccount.next] at h
    split_ifs at h
    · obtain rfl := some.inj h
      exact (update_of_ne hne ..).trans (congrFun (hcloses s gate) other)
    · obtain rfl := some.inj h
      exact update_of_ne hne ..
  | insertWorkspace origin user =>
    cases origin with
    | register =>
      obtain rfl := some.inj h
      exact update_of_ne hne ..
    | bootstrap gate =>
      obtain rfl := some.inj h
      rw [hcloses]
      exact update_of_ne hne ..
  | commit origin user workspace =>
    obtain rfl := some.inj h
    exact update_of_ne hne ..

theorem apart_of_alone {call fresh : ℕ}
    (h : ∀ other, other ≠ call → s.transactions other = none) : Apart env s (.next call fresh) := by
  intro origin email hdecides other place hother origin' email' hmakes _
  by_cases heq : other = call
  · subst heq
    rw [decides, hother] at hdecides
    cases place with
    | anybodyYet | count => cases hmakes
    | _ => cases hdecides
  · rw [h other heq] at hother
    cases hother

/-- Nothing is hashed, and addresses are in lower case. -/
def plainEnv : InviteEnv where
  hashToken := id
  lower := id

def nothing : State where
  users := []
  workspaces := []
  transactions := fun _ => none
  advisory := none
  inserting := fun _ => none
  gates := fun _ => none
  made := []

theorem nothing_init : (firstAccounts plainEnv).init nothing :=
  ⟨rfl, rfl, fun _ => rfl, rfl, fun _ => rfl, rfl⟩

theorem firstOnly_of_reachesWhen_setup :
    ∃ s, (firstAccounts plainEnv).ReachesWhen (Apart plainEnv) s ∧ s.made.length = 1 ∧
      FirstOnly s := by
  have hnext : ∀ {s s'}, ((firstAccounts plainEnv).ReachesWhen (Apart plainEnv) s ∧
      ∀ other, other ≠ 0 → s.transactions other = none) →
      (firstAccounts plainEnv).step s (.next 0 7) = some s' →
        (firstAccounts plainEnv).ReachesWhen (Apart plainEnv) s' ∧
          ∀ other, other ≠ 0 → s'.transactions other = none := by
    rintro s s' ⟨hreach, halone⟩ hstep
    refine ⟨hreach.next (apart_of_alone halone) hstep, fun other hne => ?_⟩
    obtain ⟨place, -, hplace⟩ := bind_eq_some_iff.mp hstep
    rw [transactions_next hplace hne, halone other hne]
  have hstart : (firstAccounts plainEnv).ReachesWhen (Apart plainEnv) nothing :=
    .start nothing_init
  have hmay : Apart plainEnv nothing (.bootstrap 0 "ida" none "") := trivial
  have hbegun := hstart.next hmay rfl
  have hlocked := hnext ⟨hbegun, fun other hne => update_of_ne hne ..⟩ rfl
  have hcounted := hnext hlocked rfl
  have hinserted := hnext hcounted rfl
  have hworkspace := hnext hinserted rfl
  have hcommitted := hnext hworkspace rfl
  exact ⟨_, hcommitted.1, rfl, firstOnly_of_reachesWhen hcommitted.1⟩

/-- **Two sign-ups are both the first**: each looks before the other commits. -/
theorem both_first : ¬ ∀ s, (firstAccounts plainEnv).Reaches s → FirstOnly s := by
  intro h
  let events : List Event := [.register 0 "ida@b.c", .register 1 "ada@b.c", .next 0 0, .next 1 0,
    .next 0 0, .next 1 0, .next 0 7, .next 1 8, .next 0 70, .next 1 80, .next 0 0, .next 1 0]
  have hreach : ∃ s, (firstAccounts plainEnv).Reaches s ∧ s.made.length = 2 :=
    Machine.exists_reachesWhen_of_runWhen events nothing_init (by decide +kernel)
  obtain ⟨s, hs, htwo⟩ := hreach
  have hone := (h s hs).one
  omega

end FirstAccount

end Sone
