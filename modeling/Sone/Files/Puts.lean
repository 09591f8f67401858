import Sone.Transition.Machine
import Sone.Files.Store

/-!
# Uploads at the same time

Any number of calls of `put` run on one directory, in one process or in several, which may have
the same id, and each takes its next call to the file system whenever it likes (`puts`). These
calls succeed unless what they make is there, or what they rename is not.

The temporary file is named by the key and the process. A call that finds it there fails, and
removes it, although another call is still writing to it: the other fails in its turn, or renames
what a third has begun. `putsKept_of_reachesWhen`: this is the only way in which a call does not
return, or a key has bytes that are not its own. A call is alone with its temporary file where none
opens one that is there (`Collides`), which is the invariant (`Owns`).
-/

namespace Sone

open Option Function

/-- **The directory and the calls.** -/
structure PutRun where
  now : Time
  disk : Disk StorePath
  calls : ℕ → Option PutCall
  /-- How many calls there were. -/
  count : ℕ
  /-- What the calls that ended have come to. -/
  ended : ℕ → Option (PutCall × PutOutcome)

inductive PutEvent where
  | tick (elapsed : Time)
  | starts (bytes : List UInt8) (extension : String) (pid : ℕ)
  /-- The next call to the file system of a `put`. -/
  | runs (id chunk : ℕ)
  /-- `delete` -/
  | deletes (key : String)

namespace PutRun

/-- What is known of the calls that ended, after the next call to the file system of one. -/
def endedAfter (s : PutRun) (id : ℕ) (call : PutCall) :
    PutOutcome → ℕ → Option (PutCall × PutOutcome)
  | .goesOn _ => s.ended
  | .returns stored => Function.update s.ended id (some (call, .returns stored))
  | .throws => Function.update s.ended id (some (call, .throws))

/-- The next call to the file system of a `put`. -/
def runCall (env : StoreEnv) (s : PutRun) (id chunk : ℕ) (call : PutCall) : PutRun :=
  let out := call.run env s.disk s.now chunk
  { s with
    disk := out.1
    calls := Function.update s.calls id out.2.call
    ended := s.endedAfter id call out.2 }

def step (env : StoreEnv) (s : PutRun) : PutEvent → Option PutRun
  | .tick elapsed => some { s with now := s.now + elapsed }
  | .starts bytes extension pid => some { s with
      calls := Function.update s.calls s.count (some { bytes, extension, pid })
      count := s.count + 1 }
  | .runs id chunk => (s.calls id).map (s.runCall env id chunk)
  | .deletes key => some { s with disk := deleteKey s.disk key }

end PutRun

/-- **The machine of uploads**, on a directory in which every key has its bytes. -/
def puts (env : StoreEnv) : Machine PutRun PutEvent where
  init s := (∀ key file, s.disk.names (.target key) = some file →
      IsContentOf env key (s.disk.files file).content) ∧
    s.calls = (fun _ => none) ∧ s.ended = fun _ => none
  step := PutRun.step env

/-- How many calls to the file system a `put` makes at most. -/
def PutCall.stepsLeft (call : PutCall) : ℕ :=
  match call.stage with
  | .checks => call.bytes.length + 5
  | .opens => call.bytes.length + 4
  | .writes _ rest => rest.length + 3
  | .renames _ => 2
  | .unlinks => 1

/-- A call **collides**: it opens its temporary file, which is there. -/
def PutCall.Collides (env : StoreEnv) (disk : Disk StorePath) (call : PutCall) : Prop :=
  call.stage = .opens ∧ (disk.names (call.temporary env)).isSome = true
  deriving Decidable

namespace PutRun

variable {env : StoreEnv} {s s' : PutRun} {disk : Disk StorePath} {calls : ℕ → Option PutCall}
  {call : PutCall} {id chunk : ℕ} {now : Time}

/-- **Uploads are kept.** Every key has its bytes; a call that ended has returned its key; no call
has failed; and one that goes on has fewer calls to the file system left, so that it returns. -/
structure Kept (env : StoreEnv) (s : PutRun) : Prop where
  content : ∀ key file, s.disk.names (.target key) = some file →
    IsContentOf env key (s.disk.files file).content
  returned : ∀ id call outcome, s.ended id = some (call, outcome) →
    outcome = .returns (call.stored env)
  goesOn : ∀ id call, s.calls id = some call → call.stage ≠ .unlinks
  returns : ∀ id call chunk next, s.calls id = some call →
    (call.run env s.disk s.now chunk).2 = .goesOn next → next.stepsLeft < call.stepsLeft

/-- The steps that a run is to be without: a call collides. -/
def Collides (env : StoreEnv) (s : PutRun) : PutEvent → Prop
  | .runs id _ => ∃ call ∈ s.calls id, call.Collides env s.disk
  | .tick _ | .starts .. | .deletes _ => False

instance (env : StoreEnv) (s : PutRun) (event : PutEvent) : Decidable (s.Collides env event) :=
  match event with
  | .runs _ _ => inferInstanceAs (Decidable (∃ call ∈ _, _))
  | .tick _ | .starts .. | .deletes _ => isFalse fun h => h

/-! ### One call to the file system -/

theorem stepsLeft_lt_of_goesOn {next : PutCall}
    (h : (call.run env disk now chunk).2 = .goesOn next) : next.stepsLeft < call.stepsLeft := by
  rw [PutCall.run] at h
  rw [PutCall.stepsLeft.eq_def call]
  split at h <;> rename_i hstage <;> rw [hstage]
  · split_ifs at h
    obtain rfl := PutOutcome.goesOn.inj h
    exact Nat.lt_succ_self _
  · split_ifs at h
    · obtain rfl := PutOutcome.goesOn.inj h
      simp [PutCall.stepsLeft]
    · obtain rfl := PutOutcome.goesOn.inj h
      exact Nat.lt_succ_self _
  · obtain rfl := PutOutcome.goesOn.inj h
    simp [PutCall.stepsLeft]
  · obtain rfl := PutOutcome.goesOn.inj h
    simp only [PutCall.stepsLeft, List.length_drop, List.length_cons]
    omega
  · split_ifs at h
    obtain rfl := PutOutcome.goesOn.inj h
    simp [PutCall.stepsLeft]
  · contradiction

/-- **A call that is running has its temporary file to itself**, and has not failed. -/
structure Owns (env : StoreEnv) (disk : Disk StorePath) (calls : ℕ → Option PutCall) : Prop where
  temporary : ∀ id call file rest, calls id = some call → call.made = some (file, rest) →
    disk.names (call.temporary env) = some file
  goesOn : ∀ id call, calls id = some call → call.stage ≠ .unlinks

theorem Owns.update (h : Owns env disk calls) (id : ℕ) {disk' : Disk StorePath}
    {next : Option PutCall}
    (hnext : ∀ call ∈ next, call.stage ≠ .unlinks ∧ ∀ file rest, call.made = some (file, rest) →
      disk'.names (call.temporary env) = some file)
    (hothers : ∀ other call file, other ≠ id → calls other = some call →
      disk.names (call.temporary env) = some file →
      (∃ rest, call.made = some (file, rest)) → disk'.names (call.temporary env) = some file) :
    Owns env disk' (Function.update calls id next) := by
  refine ⟨fun other call file rest hcall hmade => ?_, fun other call hcall => ?_⟩
  · by_cases heq : other = id
    · rw [heq, update_self] at hcall
      exact (hnext call hcall).2 file rest hmade
    · rw [update_of_ne heq] at hcall
      exact hothers other call file heq hcall (h.temporary other call file rest hcall hmade)
        ⟨rest, hmade⟩
  · by_cases heq : other = id
    · rw [heq, update_self] at hcall
      exact (hnext call hcall).1
    · rw [update_of_ne heq] at hcall
      exact h.goesOn other call hcall

theorem Owns.not_takesOver (h : Owns env disk calls) (hcall : calls id = some call) :
    ¬call.TakesOver env disk := by
  rw [PutCall.TakesOver]
  split
  · rename_i file hstage
    rintro ⟨other, hother, hne⟩
    have hown := h.temporary id call file [] hcall (by rw [PutCall.made, hstage])
    exact hne (some.inj (hother.symm.trans hown))
  · exact fun h => h

/-- **The next call to the file system** keeps it, where it does not collide. -/
theorem Owns.run (h : Owns env disk calls) (hputs : PutsInv env disk calls)
    (hcall : calls id = some call) (hfree : ¬call.Collides env disk) :
    Owns env (call.run env disk now chunk).1
      (Function.update calls id (call.run env disk now chunk).2.call) := by
  have hsame : ∀ other call file, other ≠ id → calls other = some call →
      disk.names (call.temporary env) = some file → (∃ rest, call.made = some (file, rest)) →
      disk.names (call.temporary env) = some file := fun _ _ _ _ _ hnames _ => hnames
  have hmade := h.temporary id call
  have hgoes := h.goesOn id call hcall
  rw [PutCall.run]
  split <;> rename_i hstage
  · split_ifs
    · exact h.update id (fun _ hnext => absurd hnext (not_mem_none _)) hsame
    · refine h.update id (fun next hnext => ?_) hsame
      obtain rfl := some.inj hnext
      exact ⟨PutStage.noConfusion, fun file rest hnone => by contradiction⟩
  · have hnone : disk.names (call.temporary env) = none := by
      by_contra hsome
      exact hfree ⟨hstage, isSome_iff_ne_none.mpr hsome⟩
    rw [if_neg (by simp [hnone])]
    refine h.update id (fun next hnext => ?_) fun other call' file hne hcall' hnames _ => ?_
    · obtain rfl := some.inj hnext
      refine ⟨PutStage.noConfusion, fun file rest hfile => ?_⟩
      obtain ⟨rfl, -⟩ := Prod.mk.inj (some.inj hfile)
      exact update_self _ _ _
    · rw [Disk.names_create, update_of_ne]
      · exact hnames
      · intro hpath
        rw [hpath, hnone] at hnames
        contradiction
  · rename_i file
    refine h.update id (fun next hnext => ?_) hsame
    obtain rfl := some.inj hnext
    refine ⟨PutStage.noConfusion, fun file' rest hfile => ?_⟩
    obtain ⟨rfl, -⟩ := Prod.mk.inj (some.inj hfile)
    exact hmade file [] hcall (by rw [PutCall.made, hstage])
  · rename_i file byte rest
    refine h.update id (fun next hnext => ?_) hsame
    obtain rfl := some.inj hnext
    refine ⟨PutStage.noConfusion, fun file' rest' hfile => ?_⟩
    obtain ⟨rfl, -⟩ := Prod.mk.inj (some.inj hfile)
    exact hmade file (byte :: rest) hcall (by rw [PutCall.made, hstage])
  · rename_i file
    have hfile : call.made = some (file, []) := by rw [PutCall.made, hstage]
    have hown := hmade file [] hcall hfile
    rw [if_pos (by simp [hown])]
    refine h.update id (fun _ hnext => absurd hnext (not_mem_none _))
      fun other call' file' hne hcall' hnames hother => ?_
    obtain ⟨rest, hother⟩ := hother
    rw [Disk.names_rename, update_of_ne (by simp [PutCall.temporary, PutCall.target]),
      update_of_ne]
    · exact hnames
    · -- two calls with one temporary file are one
      intro hpath
      rw [hpath, hown] at hnames
      obtain rfl := some.inj hnames
      exact hne (hputs.distinct other id call' call file rest [] hcall' hcall hother hfile)
  · exact absurd hstage hgoes

theorem Owns.outcome (h : Owns env disk calls) (hcall : calls id = some call) :
    (∃ next, (call.run env disk now chunk).2 = .goesOn next) ∨
      (call.run env disk now chunk).2 = .returns (call.stored env) := by
  have hgoes := h.goesOn id call hcall
  rw [PutCall.run]
  split <;> rename_i hstage
  · split_ifs
    · exact .inr rfl
    · exact .inl ⟨_, rfl⟩
  · split_ifs <;> exact .inl ⟨_, rfl⟩
  · exact .inl ⟨_, rfl⟩
  · exact .inl ⟨_, rfl⟩
  · split_ifs
    · exact .inr rfl
    · exact .inl ⟨_, rfl⟩
  · exact absurd hstage hgoes

/-! ### Runs -/

/-- **The invariant.** -/
structure Inv (env : StoreEnv) (s : PutRun) : Prop where
  puts : PutsInv env s.disk s.calls
  owns : Owns env s.disk s.calls
  returned : ∀ id call outcome, s.ended id = some (call, outcome) →
    outcome = .returns (call.stored env)

theorem Inv.kept (h : Inv env s) : Kept env s where
  content := h.puts.complete
  returned := h.returned
  goesOn := h.owns.goesOn
  returns := fun _ _ _ _ _ hgoes => stepsLeft_lt_of_goesOn hgoes

theorem Inv.runCall (h : Inv env s) (hcall : s.calls id = some call)
    (hfree : ¬call.Collides env s.disk) : Inv env (s.runCall env id chunk call) := by
  refine ⟨h.puts.run hcall (h.owns.not_takesOver hcall), h.owns.run h.puts hcall hfree, ?_⟩
  intro other call' outcome hended
  change s.endedAfter id call _ other = some (call', outcome) at hended
  rcases h.owns.outcome hcall with ⟨next, hout⟩ | hout
  · rw [hout] at hended
    exact h.returned other call' outcome hended
  · rw [hout, endedAfter] at hended
    by_cases heq : other = id
    · rw [heq, update_self] at hended
      obtain ⟨rfl, rfl⟩ := Prod.mk.inj (some.inj hended)
      rfl
    · rw [update_of_ne heq] at hended
      exact h.returned other call' outcome hended

theorem Inv.delete (h : Inv env s) (key : String) :
    Inv env { s with disk := deleteKey s.disk key } := by
  have htarget : ∀ key' file, (deleteKey s.disk key).names (.target key') = some file →
      s.disk.names (.target key') = some file := by
    intro key' file hfile
    rw [deleteKey, Disk.names_unlink] at hfile
    by_cases heq : StorePath.target key' = .target key
    · rw [heq, update_self] at hfile
      contradiction
    · rwa [update_of_ne heq] at hfile
  refine ⟨⟨?_, ?_, h.puts.distinct⟩, ⟨?_, h.owns.goesOn⟩, h.returned⟩
  · exact fun key' file hfile => h.puts.complete key' file (htarget key' file hfile)
  · intro other call file rest hcall hmade
    obtain ⟨hcontent, hlt, hnot⟩ := h.puts.made other call file rest hcall hmade
    exact ⟨hcontent, hlt, fun key' hfile => hnot key' (htarget key' file hfile)⟩
  · intro other call file rest hcall hmade
    change (deleteKey s.disk key).names (call.temporary env) = some file
    rw [deleteKey, Disk.names_unlink, update_of_ne (by simp [PutCall.temporary])]
    exact h.owns.temporary other call file rest hcall hmade

/-- **A step** that does not collide keeps the invariant. -/
theorem Inv.step (h : Inv env s) {event : PutEvent} (hfree : ¬s.Collides env event)
    (hstep : s.step env event = some s') : Inv env s' := by
  rcases event with elapsed | ⟨bytes, extension, pid⟩ | ⟨id, chunk⟩ | key
  · obtain rfl := some.inj hstep
    exact ⟨h.puts, h.owns, h.returned⟩
  · obtain rfl := some.inj hstep
    refine ⟨h.puts.update s.count fun call hcall => ?_,
      h.owns.update s.count (fun call hcall => ?_) fun _ _ _ _ _ hnames _ => hnames, h.returned⟩
    · obtain rfl := some.inj hcall
      exact .inl rfl
    · obtain rfl := some.inj hcall
      exact ⟨PutStage.noConfusion, fun file rest hnone => by contradiction⟩
  · obtain ⟨call, hcall, rfl⟩ := map_eq_some_iff.mp hstep
    exact h.runCall hcall fun hcollides => hfree ⟨call, hcall, hcollides⟩
  · obtain rfl := some.inj hstep
    exact h.delete key

/-- **When uploads are kept.** In every run in which no call opens a temporary file that is there,
every key has its bytes in every state, and every call returns its key. -/
theorem putsKept_of_reachesWhen (h : (puts env).ReachesWhen (fun s e => ¬s.Collides env e) s) :
    Kept env s := by
  refine (h.invariant (fun s hinit => ?_) fun s e s' hinv hfree hstep =>
    hinv.step hfree hstep : Inv env s).kept
  obtain ⟨hcontent, hcalls, hended⟩ := hinit
  refine ⟨⟨hcontent, ?_, ?_⟩, ⟨?_, ?_⟩, ?_⟩
  all_goals simp [hcalls, hended]

/-! ### The same picture twice -/

def emptyDirectory : PutRun where
  now := 0
  disk := .empty
  calls := fun _ => none
  count := 0
  ended := fun _ => none

theorem init_emptyDirectory (env : StoreEnv) : (puts env).init emptyDirectory :=
  ⟨fun _ _ hfile => by contradiction, rfl, rfl⟩

/-- The same picture is uploaded twice in one process: both calls find nothing, and open the
temporary file one after the other. -/
def uploadsTwice : List PutEvent :=
  [.starts [1] "bin" 1, .starts [1] "bin" 1, .runs 0 0, .runs 1 0, .runs 0 0, .runs 1 0,
    .runs 1 0, .runs 0 0, .runs 0 0, .runs 0 0, .runs 0 0]

/-- **Both uploads fail**: the second removes the temporary file, and the first cannot rename it. -/
theorem not_kept_uploadsTwice : ¬∀ env s, (puts env).Reaches s → Kept env s := by
  intro hall
  have hreach : ∃ s, (puts exampleStore).Reaches s ∧
      (s.ended 0).map Prod.snd = some .throws ∧ (s.ended 1).map Prod.snd = some .throws :=
    Machine.exists_reachesWhen_of_runWhen uploadsTwice (init_emptyDirectory exampleStore)
      (by decide +kernel)
  obtain ⟨s, hs, hfirst, -⟩ := hreach
  obtain ⟨⟨call, outcome⟩, hended, hthrows⟩ := map_eq_some_iff.mp hfirst
  have hreturned := (hall _ s hs).returned 0 call outcome hended
  rw [show outcome = .throws from hthrows] at hreturned
  contradiction

/-- The hypothesis can be met: two processes upload the same picture, and both return its key. -/
theorem putsKept_of_reachesWhen_twoProcesses :
    ∃ s, (puts exampleStore).ReachesWhen (fun s e => ¬s.Collides exampleStore e) s ∧
      s.ended 0 ≠ none ∧ s.ended 1 ≠ none ∧ Kept exampleStore s := by
  have hreach : ∃ s, (puts exampleStore).ReachesWhen (fun s e => ¬s.Collides exampleStore e) s ∧
      s.ended 0 ≠ none ∧ s.ended 1 ≠ none :=
    Machine.exists_reachesWhen_of_runWhen
      [.starts [1] "bin" 1, .starts [1] "bin" 2, .runs 0 0, .runs 1 0, .runs 0 0, .runs 1 0,
        .runs 1 0, .runs 0 0, .runs 0 0, .runs 0 0, .runs 1 0, .runs 1 0]
      (init_emptyDirectory exampleStore) (by decide +kernel)
  obtain ⟨s, hs, hfirst, hsecond⟩ := hreach
  exact ⟨s, hs, hfirst, hsecond, putsKept_of_reachesWhen hs⟩

end PutRun

end Sone
