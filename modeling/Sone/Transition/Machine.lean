import Mathlib.Logic.Relation
import Mathlib.Data.Option.Basic

/-!
# Labelled machines and guarded runs

A `Machine σ ε` is a set of initial states and a partial step function: `step s e` is the
state after event `e`, or `none` where the event cannot happen in `s`. Interleavings are
runs: every event names one atomic action of one party, and a run is a sequence of events
in any order the step function allows.

Many results about a concurrent program have the form "in every run whose steps all meet
a condition, such and such holds in every state reached". `Machine.ReachesWhen` is that
quantifier, over a condition `ok` on the state before a step and the event taken;
`Machine.Reaches` is the unconditional one. An invariant is proved once, from its step
lemma (`Machine.ReachesWhen.invariant`).

`Machine.runWhen` executes a list of events, so that a concrete run is evaluated rather
than argued about: what it ends in is reached (`Machine.reachesWhen_of_runWhen`).
-/

namespace Sone

universe u v

/-- A **machine**: initial states and a partial, labelled step function. -/
structure Machine (σ : Type u) (ε : Type v) where
  /-- The states a run may start in. -/
  init : σ → Prop
  /-- The state after an event, or `none` where the event cannot happen. -/
  step : σ → ε → Option σ

namespace Machine

variable {σ : Type u} {ε : Type v} {M : Machine σ ε} {ok : σ → ε → Prop} {s s' s₀ : σ}

/-- `s'` follows `s` by one event that meets the condition `ok`. -/
def Next (M : Machine σ ε) (ok : σ → ε → Prop) (s s' : σ) : Prop :=
  ∃ e, ok s e ∧ M.step s e = some s'

/-- `s` is reached by a run all of whose steps meet the condition `ok`. -/
def ReachesWhen (M : Machine σ ε) (ok : σ → ε → Prop) (s : σ) : Prop :=
  ∃ s₀, M.init s₀ ∧ Relation.ReflTransGen (M.Next ok) s₀ s

/-- `s` is reached by some run. -/
def Reaches (M : Machine σ ε) (s : σ) : Prop := M.ReachesWhen (fun _ _ => True) s

theorem ReachesWhen.start (h : M.init s) : M.ReachesWhen ok s := ⟨s, h, .refl⟩

theorem ReachesWhen.next {e : ε} (h : M.ReachesWhen ok s) (hok : ok s e)
    (hstep : M.step s e = some s') : M.ReachesWhen ok s' := by
  obtain ⟨s₀, h₀, hrun⟩ := h
  exact ⟨s₀, h₀, hrun.tail ⟨e, hok, hstep⟩⟩

theorem ReachesWhen.invariant {I : σ → Prop} (h : M.ReachesWhen ok s)
    (hinit : ∀ s, M.init s → I s)
    (hstep : ∀ s e s', I s → ok s e → M.step s e = some s' → I s') : I s := by
  obtain ⟨s₀, h₀, hrun⟩ := h
  induction hrun with
  | refl => exact hinit _ h₀
  | tail _ hnext ih =>
    obtain ⟨e, hok, he⟩ := hnext
    exact hstep _ e _ ih hok he

theorem Reaches.invariant {I : σ → Prop} (h : M.Reaches s) (hinit : ∀ s, M.init s → I s)
    (hstep : ∀ s e s', I s → M.step s e = some s' → I s') : I s :=
  ReachesWhen.invariant h hinit fun s e s' hI _ he => hstep s e s' hI he

/-! ### Executing a list of events -/

section Execute

/-- Execute a list of events, stopping with `none` at the first that cannot happen or does
not meet the condition. -/
def runWhen (M : Machine σ ε) (ok : σ → ε → Prop) [∀ s e, Decidable (ok s e)] (s : σ) :
    List ε → Option σ
  | [] => some s
  | e :: es => if ok s e then (M.step s e).bind fun s' => M.runWhen ok s' es else none

/-- Execute a list of events under no condition. -/
abbrev run (M : Machine σ ε) (s : σ) (es : List ε) : Option σ :=
  M.runWhen (fun _ _ => True) s es

variable [∀ s e, Decidable (ok s e)]

theorem ReachesWhen.runWhen {es : List ε} (hreach : M.ReachesWhen ok s)
    (h : M.runWhen ok s es = some s') : M.ReachesWhen ok s' := by
  induction es generalizing s with
  | nil => exact Option.some.inj h ▸ hreach
  | cons e es ih =>
    simp only [Machine.runWhen] at h
    split at h
    · rename_i hok
      obtain ⟨s₁, hstep, hrest⟩ := Option.bind_eq_some_iff.mp h
      exact ih (hreach.next hok hstep) hrest
    · simp at h

theorem reflTransGen_of_runWhen {es : List ε} (h : M.runWhen ok s es = some s') :
    Relation.ReflTransGen (M.Next ok) s s' := by
  induction es generalizing s with
  | nil => exact Option.some.inj h ▸ .refl
  | cons e es ih =>
    simp only [Machine.runWhen] at h
    split at h
    · rename_i hok
      obtain ⟨s₁, hstep, hrest⟩ := Option.bind_eq_some_iff.mp h
      exact .head ⟨e, hok, hstep⟩ (ih hrest)
    · simp at h

theorem reachesWhen_of_runWhen {es : List ε} (h₀ : M.init s₀)
    (h : M.runWhen ok s₀ es = some s) : M.ReachesWhen ok s :=
  ReachesWhen.runWhen (.start h₀) h

theorem exists_reachesWhen_of_runWhen (es : List ε) {p : σ → Prop} [DecidablePred p]
    (h₀ : M.init s₀) (h : (M.runWhen ok s₀ es).any (fun s => decide (p s)) = true) :
    ∃ s, M.ReachesWhen ok s ∧ p s := by
  cases hrun : M.runWhen ok s₀ es with
  | none => simp [hrun] at h
  | some s =>
    rw [hrun, Option.any_some] at h
    exact ⟨s, reachesWhen_of_runWhen h₀ hrun, of_decide_eq_true h⟩

end Execute

end Machine

end Sone
