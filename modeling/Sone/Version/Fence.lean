import Sone.Doc.Text
import Sone.Transition.Machine

/-!
# The version fence

`checkAndRecordVersion` of `db/version.ts` runs before a server serves anything: it reads the one
row of `instance_meta`, refuses to start where the row is of a newer version, and records its own.
The read and the write are separate statements, and starts of several servers interleave.

An update keeps the greater of two schema versions, and nothing else. A start that found no row
writes over the one that another start has written since, and an update over a newer version:
`first_starts_go_back` is such a run. `forward_of_reachesWhen` says that the fence only moves
forward in every run in which no start writes over something newer than it read.
-/

namespace Sone.VersionFence

open Option Function

/-! ### Versions -/

section Compare

variable (js : Js)

/-- `a < b`, of numbers. -/
def numberLt : JsNumber → JsNumber → Bool
  | .finite a, .finite b => a < b
  | .finite _, .infinity negative => !negative
  | .infinity negative, .finite _ => negative
  | .infinity negative, .infinity negative' => negative && !negative'
  | _, _ => false

/-- `/^\d+$/.test(x)` -/
def isNumeric (x : List Char) : Bool := x ≠ [] && x.all Char.isDigit

/-- The loop of `comparePreRelease`, over what is left of both. -/
def compareIdentifiers : List (List Char) → List (List Char) → ℤ
  | [], [] => 0
  | [], _ :: _ => -1
  | _ :: _, [] => 1
  | x :: left, y :: right =>
    if x = y then compareIdentifiers left right
    else if isNumeric x && isNumeric y then
      if numberLt (js.toNumber (.string (String.ofList x)))
        (js.toNumber (.string (String.ofList y))) then -1 else 1
    else if isNumeric x then -1
    else if isNumeric y then 1
    else if JsString.units (String.ofList x) < JsString.units (String.ofList y) then -1 else 1

def comparePreRelease (a b : List Char) : ℤ :=
  compareIdentifiers js (a.splitOn '.') (b.splitOn '.')

/-- The digits that `Number.parseInt(p, 10)` reads, behind blanks and a sign. -/
def digitsOf (p : List Char) : List Char :=
  let s := p.dropWhile JsString.isSpace
  (if s.head? = some '+' ∨ s.head? = some '-' then s.tail else s).takeWhile Char.isDigit

/-- `Number.parseInt(p, 10)` -/
def parseInt (p : List Char) : JsNumber :=
  if digitsOf p = [] then .nan
  else
    let sign := if (p.dropWhile JsString.isSpace).head? = some '-' then ['-'] else []
    js.toNumber (.string (String.ofList (sign ++ digitsOf p)))

/-- `Number.parseInt(p, 10) || 0` -/
def parsePart (p : List Char) : JsNumber :=
  if parseInt js p = .nan then .finite 0 else parseInt js p

/-- What `parse` gives: the numbers, and what comes after the first dash. -/
structure ParsedVersion where
  parts : List JsNumber
  pre : Option (List Char)

/-- `parse` -/
def parseVersion (v : List Char) : ParsedVersion :=
  let pieces := v.splitOn '-'
  { parts := ((pieces.headD []).splitOn '.').map (parsePart js)
    pre := if pieces.tail = [] then none else some (['-'].intercalate pieces.tail) }

/-- The loop over the first three numbers. The difference of two infinities is no number, and not
zero: the second is taken for the smaller one. -/
def compareParts (left right : List JsNumber) : ℕ → ℕ → ℤ
  | 0, _ => 0
  | n + 1, i =>
    match left.getD i (.finite 0), right.getD i (.finite 0) with
    | .finite x, .finite y =>
      if x = y then compareParts left right n (i + 1) else if x < y then -1 else 1
    | x, y => if numberLt x y then -1 else 1

def compareVersions (a b : String) : ℤ :=
  if a = b then 0
  else if a = "dev" then 1
  else if b = "dev" then -1
  else
    let left := parseVersion js a.toList
    let right := parseVersion js b.toList
    if compareParts left.parts right.parts 3 0 ≠ 0 then compareParts left.parts right.parts 3 0
    else if left.pre = right.pre then 0
    else match left.pre, right.pre with
      | none, _ => 1
      | _, none => -1
      | some pre, some pre' => comparePreRelease js pre pre'

def isMajorUpgrade (older newer : String) : Bool :=
  let major := fun v : String => parsePart js ((v.toList.splitOn '.').headD [])
  numberLt (major older) (major newer)

end Compare

/-! ### The check -/

structure InstanceMeta where
  appVersion : String
  documentSchemaVersion : ℤ
  minAppVersion : String
  instanceId : ℕ
  firstStartedAt : ℕ
  lastStartedAt : ℕ
  deriving DecidableEq

structure Build where
  appVersion : String
  documentSchemaVersion : ℤ
  /-- `allowDowngrade === true` -/
  allowDowngrade : Bool
  deriving DecidableEq

/-- The codes of `VersionFenceError`. -/
inductive FenceCode where
  | downgrade
  | tooOld
  | schemaRegression
  deriving DecidableEq

structure VersionFenceError where
  code : FenceCode
  message : String
  previousVersion : Option String
  deriving DecidableEq

structure FenceResult where
  previous : Option InstanceMeta
  isFirstStart : Bool
  isUpgrade : Bool
  isMajorUpgrade : Bool
  deriving DecidableEq

def downgradeMessage (previous app : String) : String :=
  "this database was last used by SONE " ++ previous ++ ", but this is " ++ app ++
    ". Downgrading is not supported: migrations are forward-only and documents may already be " ++
    "at a newer schema version. Restore a backup taken before the upgrade, or run " ++ previous ++
    " or newer.\n\nIf the version numbers are misleading rather than the code being older — a " ++
    "development build following a release candidate, for instance — set " ++
    "SONE_ALLOW_DOWNGRADE=true for one start. The document format check still applies and is " ++
    "not bypassable."

/-- Why a schema version is refused. -/
def regressionMessage (previous schema : ℤ) : String :=
  "documents in this database may be at schema version " ++ toString previous ++
    ", but this build supports only " ++ toString schema ++ ". It cannot read them."

/-- Why a skipped version is refused. -/
def tooOldMessage (least app : String) : String :=
  "this database requires SONE " ++ least ++ " or newer; this is " ++ app ++ "."

/-- The checks of `checkAndRecordVersion` on the row that was read, and what it returns after the
write. -/
def check (js : Js) (build : Build) : Option InstanceMeta → Except VersionFenceError FenceResult
  | none => .ok ⟨none, true, false, false⟩
  | some previous =>
    if compareVersions js build.appVersion previous.appVersion < 0 ∧ build.allowDowngrade = false
    then .error ⟨.downgrade, downgradeMessage previous.appVersion build.appVersion,
      some previous.appVersion⟩
    else if build.documentSchemaVersion < previous.documentSchemaVersion then
      .error ⟨.schemaRegression,
        regressionMessage previous.documentSchemaVersion build.documentSchemaVersion,
        some previous.appVersion⟩
    else if compareVersions js build.appVersion previous.minAppVersion < 0 then
      .error ⟨.tooOld, tooOldMessage previous.minAppVersion build.appVersion,
        some previous.appVersion⟩
    else
      let isUpgrade := 0 < compareVersions js build.appVersion previous.appVersion
      .ok ⟨some previous, false, isUpgrade,
        isUpgrade && isMajorUpgrade js previous.appVersion build.appVersion⟩

/-- The write: an insert or, on conflict, an update where no row was read, and an update where
one was. -/
def record (build : Build) (previous row : Option InstanceMeta) (now fresh : ℕ) :
    Option InstanceMeta :=
  match previous, row with
  | none, none => some {
      appVersion := build.appVersion
      documentSchemaVersion := build.documentSchemaVersion
      minAppVersion := "0.0.0"
      instanceId := fresh
      firstStartedAt := now
      lastStartedAt := now }
  | none, some row => some { row with
      appVersion := build.appVersion
      documentSchemaVersion := build.documentSchemaVersion
      lastStartedAt := now }
  | some _, row => row.map fun row => { row with
      appVersion := build.appVersion
      documentSchemaVersion := max row.documentSchemaVersion build.documentSchemaVersion
      lastStartedAt := now }

/-! ### Starts -/

/-- A start between its read and its write: what it has read. -/
structure Start where
  build : Build
  previous : Option InstanceMeta

/-- The row, the starts under way, and the clock. -/
structure State where
  row : Option InstanceMeta
  starts : ℕ → Option Start
  now : ℕ

inductive Event where
  | tick (ms : ℕ)
  /-- A start reads the row and checks it. -/
  | reads (start : ℕ) (build : Build)
  /-- It writes, with the id that is drawn where it inserts. -/
  | writes (start fresh : ℕ)
  /-- Its write fails. -/
  | fails (start : ℕ)
  deriving DecidableEq

section Steps

variable (js : Js)

/-- The state after an event, where it can happen. A start that throws is over. -/
def step (s : State) : Event → Option State
  | .tick ms => some { s with now := s.now + ms }
  | .reads start build =>
    if (s.starts start).isSome then none
    else match check js build s.row with
      | .error _ => some s
      | .ok _ => some { s with starts := Function.update s.starts start (some ⟨build, s.row⟩) }
  | .writes start fresh => (s.starts start).map fun pending =>
    { s with
      row := record pending.build pending.previous s.row s.now fresh
      starts := Function.update s.starts start none }
  | .fails start =>
    if (s.starts start).isSome then some { s with starts := Function.update s.starts start none }
    else none

/-- **The machine of the starts**, against a database in any state. -/
def starting : Machine State Event where
  init s := ∀ start, s.starts start = none
  step := step js

def throws (s : State) : Event → Bool
  | .reads _ build => match check js build s.row with
    | .error _ => true
    | .ok _ => false
  | .fails _ => true
  | _ => false

def mayDowngrade (s : State) : Event → Bool
  | .writes start _ => (s.starts start).any (·.build.allowDowngrade)
  | _ => false

/-- **A step forward**: no recorded version becomes older, and a start that throws leaves the
row. -/
structure Forward (s : State) (e : Event) (s' : State) : Prop where
  schema : ∀ row ∈ s.row, ∃ row' ∈ s'.row, row.documentSchemaVersion ≤ row'.documentSchemaVersion
  app : mayDowngrade s e = false → ∀ row ∈ s.row, ∀ row' ∈ s'.row,
    ¬ compareVersions js row'.appVersion row.appVersion < 0
  throws : throws js s e = true → s'.row = s.row

/-- **No start writes over something newer** than what it read: where the row is another one by
then, it is of no newer version, and of no newer schema version where the start had found none. -/
def Current (s : State) : Event → Prop
  | .writes start _ => ∀ pending ∈ s.starts start, ∀ row ∈ s.row, s.row ≠ pending.previous →
    (pending.build.allowDowngrade = false →
      ¬ compareVersions js pending.build.appVersion row.appVersion < 0) ∧
    (pending.previous = none → row.documentSchemaVersion ≤ pending.build.documentSchemaVersion)
  | _ => True

end Steps

variable {js : Js} {s s' : State} {e : Event}

theorem compareVersions_self (v : String) : compareVersions js v v = 0 := if_pos rfl

/-- A start that is to write has passed the checks. -/
def Checked (js : Js) (s : State) : Prop :=
  ∀ start, ∀ pending ∈ s.starts start,
    ∃ result, check js pending.build pending.previous = .ok result

theorem check_eq_ok {build : Build} {previous : InstanceMeta} {result : FenceResult}
    (h : check js build (some previous) = .ok result) :
    (build.allowDowngrade = false →
      ¬ compareVersions js build.appVersion previous.appVersion < 0) ∧
      previous.documentSchemaVersion ≤ build.documentSchemaVersion := by
  rw [check] at h
  split_ifs at h with holder hschema hleast
  exact ⟨fun hallow hlt => holder ⟨hlt, hallow⟩, Int.not_lt.mp hschema⟩

theorem row_eq_of_step (h : (starting js).step s e = some s')
    (hwrite : ∀ start fresh, e ≠ .writes start fresh) : s'.row = s.row := by
  cases e with
  | tick ms =>
    obtain rfl := some.inj h
    rfl
  | reads start build =>
    simp only [starting, step, ite_none_left_eq_some] at h
    obtain ⟨-, h⟩ := h
    split at h
    · rw [some.inj h]
    · rw [← some.inj h]
  | writes start fresh => exact absurd rfl (hwrite start fresh)
  | fails start =>
    simp only [starting, step, ite_none_right_eq_some, Option.some.injEq] at h
    rw [← h.2]

/-- **What is pending was checked.** -/
theorem Checked.step (h : Checked js s) (hstep : (starting js).step s e = some s') :
    Checked js s' := by
  have hupdate : ∀ {start : ℕ} {new : Option Start}, (∀ pending ∈ new, ∃ result,
      check js pending.build pending.previous = .ok result) →
        ∀ other, ∀ pending ∈ Function.update s.starts start new other, ∃ result,
          check js pending.build pending.previous = .ok result := by
    intro start new hnew other pending hpending
    by_cases heq : other = start
    · rw [heq, update_self] at hpending
      exact hnew pending hpending
    · rw [update_of_ne heq] at hpending
      exact h other pending hpending
  cases e with
  | tick ms =>
    obtain rfl := some.inj hstep
    exact h
  | reads start build =>
    simp only [starting, VersionFence.step, ite_none_left_eq_some] at hstep
    obtain ⟨-, hstep⟩ := hstep
    split at hstep
    · rw [← some.inj hstep]
      exact h
    · rename_i result hresult
      rw [← some.inj hstep]
      refine hupdate fun pending hpending => ⟨result, ?_⟩
      rw [← some.inj hpending]
      exact hresult
  | writes start fresh =>
    obtain ⟨pending, -, rfl⟩ := map_eq_some_iff.mp hstep
    exact hupdate (by simp)
  | fails start =>
    simp only [starting, VersionFence.step, ite_none_right_eq_some,
      Option.some.injEq] at hstep
    obtain ⟨-, rfl⟩ := hstep
    exact hupdate (by simp)

theorem checked_of_reachesWhen {ok : State → Event → Prop}
    (h : (starting js).ReachesWhen ok s) : Checked js s := by
  refine h.invariant ?_ fun _ _ _ hinv _ hstep => hinv.step hstep
  intro s hnone start pending hpending
  rw [hnone start] at hpending
  cases hpending

/-- **A step goes forward** exactly where it does not write over something newer. -/
theorem forward_iff_current (h : Checked js s) (hstep : (starting js).step s e = some s') :
    Forward js s e s' ↔ Current js s e := by
  by_cases hwrite : ∃ start fresh, e = .writes start fresh
  · obtain ⟨start, fresh, rfl⟩ := hwrite
    obtain ⟨pending, hpending, rfl⟩ := map_eq_some_iff.mp hstep
    have hdowngrade : mayDowngrade s (.writes start fresh) = pending.build.allowDowngrade := by
      rw [mayDowngrade, hpending]
      rfl
    cases hrow : s.row with
    | none =>
      constructor
      · intro _ other _ row hmem
        rw [hrow] at hmem
        cases hmem
      · intro _
        exact ⟨by simp [hrow], by simp [hrow], by simp [throws]⟩
    | some row =>
      obtain ⟨row', hrow', happ, hschema⟩ : ∃ row',
          record pending.build pending.previous (some row) s.now fresh = some row' ∧
            row'.appVersion = pending.build.appVersion ∧
            (row.documentSchemaVersion ≤ row'.documentSchemaVersion ↔
              (pending.previous = none →
                row.documentSchemaVersion ≤ pending.build.documentSchemaVersion)) := by
        cases hprevious : pending.previous with
        | none => exact ⟨_, rfl, rfl, by simp⟩
        | some previous => exact ⟨_, rfl, rfl, iff_of_true (Int.le_max_left ..) nofun⟩
      constructor
      · rintro ⟨hforward, hversion, -⟩ other hother row₀ hmem -
        rw [hpending] at hother
        obtain rfl := some.inj hother
        rw [hrow] at hmem
        obtain rfl := some.inj hmem
        obtain ⟨written, hwritten, hle⟩ := hforward row hrow
        obtain rfl := mem_unique hwritten hrow'
        refine ⟨fun hallow => ?_, hschema.mp hle⟩
        rw [← happ]
        exact hversion (hdowngrade.trans hallow) row hrow _ hrow'
      · intro hcurrent
        -- what was read is still there, or what came since is no newer
        have hboth : (pending.build.allowDowngrade = false →
            ¬ compareVersions js pending.build.appVersion row.appVersion < 0) ∧
            (pending.previous = none →
              row.documentSchemaVersion ≤ pending.build.documentSchemaVersion) := by
          by_cases hsame : s.row = pending.previous
          · obtain ⟨result, hresult⟩ := h start pending hpending
            rw [← hsame, hrow] at hresult
            refine ⟨(check_eq_ok hresult).1, fun hnone => ?_⟩
            rw [← hsame, hrow] at hnone
            cases hnone
          · exact hcurrent pending hpending row hrow hsame
        refine ⟨fun row₀ hmem => ⟨row', hrow', ?_⟩, fun hallow row₀ hmem => ?_,
          by simp [throws]⟩
        · rw [hrow] at hmem
          obtain rfl := some.inj hmem
          exact hschema.mpr hboth.2
        · rw [hrow] at hmem
          obtain rfl := some.inj hmem
          intro written hwritten
          rw [mem_unique hwritten hrow', happ]
          exact hboth.1 (hdowngrade.symm.trans hallow)
  · have hnot : ∀ start fresh, e ≠ .writes start fresh :=
      fun start fresh heq => hwrite ⟨start, fresh, heq⟩
    have hrow := row_eq_of_step hstep hnot
    refine ⟨fun _ => ?_, fun _ => ⟨fun row hmem => ⟨row, hrow ▸ hmem, Int.le_refl _⟩,
      fun _ row hmem row' hmem' => ?_, fun _ => hrow⟩⟩
    · cases e with
      | writes start fresh => exact absurd rfl (hnot start fresh)
      | _ => trivial
    · rw [hrow] at hmem'
      rw [mem_unique hmem' hmem, compareVersions_self]
      exact Int.lt_irrefl 0

/-- **The fence only moves forward** in every run in which no start writes over something newer
than what it read: every step is one forward, and the schema version never falls. -/
theorem forward_of_reachesWhen (h : (starting js).ReachesWhen (Current js) s)
    (hrun : Relation.ReflTransGen ((starting js).Next (Current js)) s s') :
    (∀ row ∈ s.row, ∃ row' ∈ s'.row, row.documentSchemaVersion ≤ row'.documentSchemaVersion) ∧
      ∀ e next, Current js s' e → (starting js).step s' e = some next → Forward js s' e next := by
  obtain ⟨s₀, h₀, hbefore⟩ := h
  have hforward : ∀ {t e next}, Relation.ReflTransGen ((starting js).Next (Current js)) s₀ t →
      Current js t e → (starting js).step t e = some next → Forward js t e next := by
    intro t e next ht hcurrent hstep
    exact (forward_iff_current (checked_of_reachesWhen ⟨s₀, h₀, ht⟩) hstep).mpr hcurrent
  refine ⟨?_, fun e next hcurrent hstep => hforward (hbefore.trans hrun) hcurrent hstep⟩
  induction hrun with
  | refl => exact fun row hrow => ⟨row, hrow, Int.le_refl _⟩
  | tail hsteps hnext ih =>
    obtain ⟨e, hcurrent, hstep⟩ := hnext
    intro row hrow
    obtain ⟨middle, hmiddle, hle⟩ := ih row hrow
    obtain ⟨last, hlast, hle'⟩ :=
      (hforward (hbefore.trans hsteps) hcurrent hstep).schema middle hmiddle
    exact ⟨last, hlast, Int.le_trans hle hle'⟩

/-! ### Two first starts -/

/-- The language where a number is its decimal digits. -/
def decimals : Js where
  __ := Js.ascii
  toNumber
    | .string s => if isNumeric s.toList then .finite (Nat.ofDigitChars 10 s.toList 0) else .nan
    | value => Js.ascii.toNumber value

def newer : Build := ⟨"0.2.0", 3, false⟩

def older : Build := ⟨"0.1.0", 2, false⟩

/-- A database that no server has started against. -/
def untouched : State where
  row := none
  starts := fun _ => none
  now := 0

theorem untouched_init : (starting decimals).init untouched := fun _ => rfl

/-- A start of the older release, and then one of the newer. -/
theorem forward_of_reachesWhen_upgrade :
    ∃ s, Relation.ReflTransGen ((starting decimals).Next (Current decimals)) untouched s ∧
      s.row.map (·.appVersion) = some "0.1.0" ∧
        ∀ e next, Current decimals s e → (starting decimals).step s e = some next →
          Forward decimals s e next := by
  have hrun : Relation.ReflTransGen ((starting decimals).Next (Current decimals)) untouched
      { row := record older none none 0 7, starts := fun _ => none, now := 0 } := by
    refine .tail (.single ⟨.reads 0 older, trivial, rfl⟩) ⟨.writes 0 7, ?_, ?_⟩
    · rintro pending - row ⟨⟩
    · simp only [starting, step, update_self, map_some, update_idem,
        untouched, update_eq_self]
  exact ⟨_, hrun, rfl, (forward_of_reachesWhen (.start untouched_init) hrun).2⟩

/-- **Two first starts**: the older release writes over what the newer has recorded. -/
theorem first_starts_go_back : ¬ ∀ s s', (starting decimals).Reaches s →
    Relation.ReflTransGen ((starting decimals).Next fun _ _ => True) s s' →
      ∀ row ∈ s.row, ∃ row' ∈ s'.row, row.documentSchemaVersion ≤ row'.documentSchemaVersion := by
  intro h
  let recorded := [Event.reads 0 newer, .reads 1 older, .writes 0 7]
  obtain ⟨s', hboth⟩ : ∃ s', (((starting decimals).run untouched recorded).bind fun s =>
      (starting decimals).run s [.writes 1 8]) = some s' :=
    isSome_iff_exists.mp rfl
  obtain ⟨s, hs, hs'⟩ := bind_eq_some_iff.mp hboth
  have hbefore : ((starting decimals).run untouched recorded).map (·.row) =
      some (record newer none none 0 7) := rfl
  have hafter : (((starting decimals).run untouched recorded).bind fun s =>
      (starting decimals).run s [.writes 1 8]).map (·.row) =
        some (record older none (record newer none none 0 7) 0 8) := rfl
  rw [hs, map_some, Option.some.injEq] at hbefore
  rw [hboth, map_some, Option.some.injEq] at hafter
  obtain ⟨row', hrow', hle⟩ := h s s' (Machine.reachesWhen_of_runWhen untouched_init hs)
    (Machine.reflTransGen_of_runWhen hs') _ hbefore
  rw [hafter] at hrow'
  obtain rfl := some.inj hrow'
  exact absurd hle (by decide)

end Sone.VersionFence
