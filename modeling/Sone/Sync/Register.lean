import Mathlib.Data.List.MinMax
import Mathlib.Data.List.Nodup
import Mathlib.Data.Set.Insert

/-!
# A replicated map of registers

Replicas of a document exchange operations. An operation has an id, the ids of the operations
it needs, and for an operation on the map the key it writes and the value, absent where it
deletes the key. A replica integrates an operation when everything it needs is there, and
keeps it pending until then.

The ids are in the order the replicas agree on for writes of one key. The last write decides
what a key reads as. A write is after all writes its author had, and two that did not know of
each other stand in either order, which is all that is known of it.

`Reads S k v` says what a set of operations makes of a key. `Reads.union` is the fact the
merging of replicas rests on: what two sets agree on, their union agrees with.
-/

set_option linter.unusedSectionVars false

namespace Sone.Register

open List

universe u v w

/-- **An operation**, by its id. -/
structure Op (ι : Type u) (κ : Type v) (ν : Type w) where
  id : ι
  /-- What has to be integrated before it. -/
  needs : List ι
  /-- The key it writes and the value, if it is on the map at all. -/
  write : Option (κ × Option ν)
  deriving DecidableEq

variable {ι : Type u} {κ : Type v} {ν : Type w} [LinearOrder ι] [DecidableEq κ] [DecidableEq ν]
  {S T : Set (Op ι κ ν)} {k : κ} {v v' : Option ν} {o : Op ι κ ν} {l new : List (Op ι κ ν)}

/-- Whether an operation writes a key. -/
def Op.IsOn (o : Op ι κ ν) (k : κ) : Prop := o.write.map (·.1) = some k

instance : Decidable (o.IsOn k) := inferInstanceAs (Decidable (_ = _))

def Op.value (o : Op ι κ ν) : Option ν := o.write.bind (·.2)

def IdsAgree (S : Set (Op ι κ ν)) : Prop := ∀ o ∈ S, ∀ o' ∈ S, o.id = o'.id → o = o'

instance : Decidable (IdsAgree {o | o ∈ l}) :=
  inferInstanceAs (Decidable (∀ o ∈ l, ∀ o' ∈ l, o.id = o'.id → o = o'))

theorem IdsAgree.mono (h : IdsAgree T) (hsub : S ⊆ T) : IdsAgree S :=
  fun o ho o' ho' => h o (hsub ho) o' (hsub ho')

/-! ### What a set of operations makes of a key -/

/-- **What a key reads as**: the value of the last write, and nothing where there is none. -/
def Reads (S : Set (Op ι κ ν)) (k : κ) (v : Option ν) : Prop :=
  ((∀ o ∈ S, ¬o.IsOn k) ∧ v = none) ∨
    ∃ o ∈ S, o.IsOn k ∧ (∀ o' ∈ S, o'.IsOn k → o'.id ≤ o.id) ∧ o.value = v

theorem Reads.unique (hids : IdsAgree S) (h : Reads S k v) (h' : Reads S k v') : v = v' := by
  rcases h with ⟨hnone, rfl⟩ | ⟨o, ho, hon, hlast, rfl⟩
  · rcases h' with ⟨-, rfl⟩ | ⟨o', ho', hon', -⟩
    · rfl
    · exact absurd hon' (hnone o' ho')
  · rcases h' with ⟨hnone, -⟩ | ⟨o', ho', hon', hlast', rfl⟩
    · exact absurd hon (hnone o ho)
    · rw [hids o ho o' ho' (le_antisymm (hlast' o ho hon) (hlast o' ho' hon'))]

/-- **The union** of what two sets agree on reads the same. -/
theorem Reads.union (h : Reads S k v) (h' : Reads T k v) : Reads (S ∪ T) k v := by
  rcases h with ⟨hnone, rfl⟩ | ⟨o, ho, hon, hlast, hv⟩
  · rcases h' with ⟨hnone', -⟩ | ⟨o', ho', hon', hlast', hv'⟩
    · exact .inl ⟨fun o ho => ho.elim (hnone o) (hnone' o), rfl⟩
    · exact .inr ⟨o', .inr ho', hon',
        fun o ho hon => ho.elim (fun h => absurd hon (hnone o h)) fun h => hlast' o h hon, hv'⟩
  · rcases h' with ⟨hnone', -⟩ | ⟨o', ho', hon', hlast', hv'⟩
    · exact .inr ⟨o, .inl ho, hon,
        fun o ho hon => ho.elim (fun h => hlast o h hon) fun h => absurd hon (hnone' o h), hv⟩
    · rcases le_total o.id o'.id with hle | hle
      · exact .inr ⟨o', .inr ho', hon', fun x hx hxon =>
          hx.elim (fun h => (hlast x h hxon).trans hle) fun h => hlast' x h hxon, hv'⟩
      · exact .inr ⟨o, .inl ho, hon, fun x hx hxon =>
          hx.elim (fun h => hlast x h hxon) fun h => (hlast' x h hxon).trans hle, hv⟩

theorem Reads.congr (h : Reads S k v) (hsame : ∀ o, o.IsOn k → (o ∈ S ↔ o ∈ T)) :
    Reads T k v := by
  rcases h with ⟨hnone, rfl⟩ | ⟨o, ho, hon, hlast, hv⟩
  · exact .inl ⟨fun o ho hon => hnone o ((hsame o hon).mpr ho) hon, rfl⟩
  · exact .inr ⟨o, (hsame o hon).mp ho, hon,
      fun o' ho' hon' => hlast o' ((hsame o' hon').mpr ho') hon', hv⟩

theorem reads_of_last (ho : o ∈ S) (hon : o.IsOn k) (hlast : ∀ o' ∈ S, o'.IsOn k → o'.id ≤ o.id) :
    Reads S k o.value := .inr ⟨o, ho, hon, hlast, rfl⟩

/-! ### Reading a list of operations -/

def top (l : List (Op ι κ ν)) (k : κ) : Option (Op ι κ ν) :=
  (l.filter fun o => o.IsOn k).argmax (·.id)

/-- `map.get(key)` -/
def read (l : List (Op ι κ ν)) (k : κ) : Option ν := (top l k).bind (·.value)

theorem mem_of_top (h : top l k = some o) : o ∈ l ∧ o.IsOn k := by
  simpa using argmax_mem h

theorem le_of_top (h : top l k = some o) {o' : Op ι κ ν} (ho' : o' ∈ l) (hon : o'.IsOn k) :
    o'.id ≤ o.id :=
  le_of_mem_argmax (by simpa using ⟨ho', hon⟩) h

theorem top_eq_none (h : top l k = none) (ho : o ∈ l) : ¬o.IsOn k := by
  rw [top, argmax_eq_none, filter_eq_nil_iff] at h
  simpa using h o ho

theorem reads_read (l : List (Op ι κ ν)) (k : κ) : Reads {o | o ∈ l} k (read l k) := by
  rw [read]
  rcases h : top l k with _ | o
  · exact .inl ⟨fun o ho => top_eq_none h ho, rfl⟩
  · obtain ⟨ho, hon⟩ := mem_of_top h
    exact reads_of_last ho hon fun o' ho' hon' => le_of_top h ho' hon'

theorem read_eq (hids : IdsAgree {o | o ∈ l}) (h : Reads {o | o ∈ l} k v) : read l k = v :=
  (reads_read l k).unique hids h

theorem read_append_of_not_isOn (h : ∀ o ∈ new, ¬o.IsOn k) : read (l ++ new) k = read l k := by
  have hnil : new.filter (fun o => o.IsOn k) = [] := by simpa using h
  rw [read, read, top, top, filter_append, hnil, append_nil]

/-! ### Writing keys -/

/-- `map.set` and `map.delete`: a write that needs the last one of the key. -/
def assign (l : List (Op ι κ ν)) (i : ι) (k : κ) (v : Option ν) : Op ι κ ν :=
  ⟨i, ((top l k).map (·.id)).toList, some (k, v)⟩

/-- The writes of several keys, each under the id it is given. -/
def assignAll (l : List (Op ι κ ν)) (ids : κ → ι) (changes : List (κ × Option ν)) :
    List (Op ι κ ν) :=
  changes.map fun c => assign l (ids c.1) c.1 c.2

/-- **The ids of new writes** are new, and each is after every write of its key that is
there. -/
def Stamps (made l : List (Op ι κ ν)) (ids : κ → ι) (changes : List (κ × Option ν)) : Prop :=
  (changes.map fun c => ids c.1).Nodup ∧
    ∀ c ∈ changes, (∀ o ∈ made, o.id ≠ ids c.1) ∧ ∀ o ∈ l, o.IsOn c.1 → o.id < ids c.1

instance (made l : List (Op ι κ ν)) (ids : κ → ι) (changes : List (κ × Option ν)) :
    Decidable (Stamps made l ids changes) := inferInstanceAs (Decidable (_ ∧ _))

section Stamps

variable {made : List (Op ι κ ν)} {ids : κ → ι} {changes : List (κ × Option ν)}

theorem isOn_assign {i : ι} {k' : κ} : (assign l i k v).IsOn k' ↔ k = k' := by
  simp [assign, Op.IsOn]

theorem mem_assignAll : o ∈ assignAll l ids changes ↔
    ∃ c ∈ changes, assign l (ids c.1) c.1 c.2 = o := by
  simp only [assignAll, List.mem_map]

theorem Stamps.idsAgree (h : Stamps made l ids changes) (hids : IdsAgree {o | o ∈ made}) :
    IdsAgree {o | o ∈ made ++ assignAll l ids changes} := by
  intro o ho o' ho' heq
  rcases mem_append.mp ho with ho | ho <;> rcases mem_append.mp ho' with ho' | ho'
  · exact hids o ho o' ho' heq
  · obtain ⟨c, hc, rfl⟩ := mem_assignAll.mp ho'
    exact absurd heq ((h.2 c hc).1 o ho)
  · obtain ⟨c, hc, rfl⟩ := mem_assignAll.mp ho
    exact absurd heq.symm ((h.2 c hc).1 o' ho')
  · obtain ⟨c, hc, rfl⟩ := mem_assignAll.mp ho
    obtain ⟨c', hc', rfl⟩ := mem_assignAll.mp ho'
    rw [inj_on_of_nodup_map h.1 hc hc' heq]

theorem reads_append_assignAll (h : Stamps made l ids changes) {c : κ × Option ν}
    (hc : c ∈ changes) : Reads {o | o ∈ l ++ assignAll l ids changes} c.1 c.2 := by
  refine reads_of_last (mem_append_right _ (mem_assignAll.mpr ⟨c, hc, rfl⟩))
    (isOn_assign.mpr rfl) fun o ho hon => ?_
  rcases mem_append.mp ho with ho | ho
  · exact ((h.2 c hc).2 o ho hon).le
  · obtain ⟨c', hc', rfl⟩ := mem_assignAll.mp ho
    rw [assign, assign, isOn_assign.mp hon]

theorem not_isOn_of_mem_assignAll (hk : ∀ c ∈ changes, c.1 ≠ k) :
    ∀ o ∈ assignAll l ids changes, ¬o.IsOn k := by
  intro o ho hon
  obtain ⟨c, hc, rfl⟩ := mem_assignAll.mp ho
  exact hk c hc (isOn_assign.mp hon)

end Stamps

/-! ### Integrating operations -/

/-- Whether everything an operation needs is there. -/
def isReady (integrated : List (Op ι κ ν)) (o : Op ι κ ν) : Bool :=
  o.needs.all fun i => integrated.any fun o' => o'.id = i

/-- Rounds of integrating what is ready. -/
def absorb : ℕ → List (Op ι κ ν) → List (Op ι κ ν) → List (Op ι κ ν) × List (Op ι κ ν)
  | 0, integrated, pool => (integrated, pool)
  | n + 1, integrated, pool =>
    absorb n (integrated ++ pool.filter (isReady integrated))
      (pool.filter fun o => !isReady integrated o)

/-- **A replica**: the operations it has integrated, and those still waiting. -/
structure Replica (ι : Type u) (κ : Type v) (ν : Type w) where
  integrated : List (Op ι κ ν) := []
  pending : List (Op ι κ ν) := []
  deriving DecidableEq

/-- `applyUpdate`: integrates of an update and of what was waiting all that can be. As many
rounds suffice as there are operations, since a round that integrates nothing is the last. -/
def Replica.apply (r : Replica ι κ ν) (update : List (Op ι κ ν)) : Replica ι κ ν :=
  let pool := (r.pending ++ update).filter fun o => r.integrated.all fun o' => o'.id ≠ o.id
  let result := absorb pool.length r.integrated pool
  ⟨result.1, result.2⟩

theorem absorb_spec (n : ℕ) (integrated pool : List (Op ι κ ν)) :
    ∃ new, (absorb n integrated pool).1 = integrated ++ new ∧ (∀ o ∈ new, o ∈ pool) ∧
      ∀ o ∈ (absorb n integrated pool).2, o ∈ pool := by
  induction n generalizing integrated pool with
  | zero => exact ⟨[], by simp [absorb], by simp, by simp [absorb]⟩
  | succ n ih =>
    obtain ⟨new, hnew, hmem, hrest⟩ := ih (integrated ++ pool.filter (isReady integrated))
      (pool.filter fun o => !isReady integrated o)
    refine ⟨pool.filter (isReady integrated) ++ new, ?_, ?_, ?_⟩
    · rw [absorb, hnew, append_assoc]
    · intro o ho
      rcases mem_append.mp ho with ho | ho
      · exact mem_of_mem_filter ho
      · exact mem_of_mem_filter (hmem o ho)
    · intro o ho
      exact mem_of_mem_filter (hrest o ho)

theorem Replica.apply_spec (r : Replica ι κ ν) (update : List (Op ι κ ν)) :
    ∃ new, (r.apply update).integrated = r.integrated ++ new ∧
      (∀ o ∈ new, o ∈ r.pending ∨ o ∈ update) ∧
      ∀ o ∈ (r.apply update).pending, o ∈ r.pending ∨ o ∈ update := by
  obtain ⟨new, hnew, hmem, hrest⟩ := absorb_spec
    ((r.pending ++ update).filter fun o => r.integrated.all fun o' => o'.id ≠ o.id).length
    r.integrated ((r.pending ++ update).filter fun o => r.integrated.all fun o' => o'.id ≠ o.id)
  refine ⟨new, hnew, fun o ho => ?_, fun o ho => ?_⟩
  · exact mem_append.mp (mem_of_mem_filter (hmem o ho))
  · exact mem_append.mp (mem_of_mem_filter (hrest o ho))

/-- The operations an update makes a replica integrate. -/
def Replica.takesIn (r : Replica ι κ ν) (update : List (Op ι κ ν)) : List (Op ι κ ν) :=
  (r.apply update).integrated.drop r.integrated.length

theorem Replica.integrated_apply (r : Replica ι κ ν) (update : List (Op ι κ ν)) :
    (r.apply update).integrated = r.integrated ++ r.takesIn update := by
  obtain ⟨new, hnew, -⟩ := r.apply_spec update
  rw [takesIn, hnew, drop_left]

theorem Replica.mem_of_takesIn {r : Replica ι κ ν} {update : List (Op ι κ ν)}
    (h : o ∈ r.takesIn update) : o ∈ r.pending ∨ o ∈ update := by
  obtain ⟨new, hnew, hmem, -⟩ := r.apply_spec update
  rw [takesIn, hnew, drop_left] at h
  exact hmem o h

theorem Replica.mem_of_pending_apply {r : Replica ι κ ν} {update : List (Op ι κ ν)}
    (h : o ∈ (r.apply update).pending) : o ∈ r.pending ∨ o ∈ update := by
  obtain ⟨-, -, -, hrest⟩ := r.apply_spec update
  exact hrest o h

end Sone.Register
