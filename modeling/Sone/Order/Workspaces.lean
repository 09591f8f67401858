import Mathlib.Data.List.Chain
import Sone.Order.KeyBetween
import Sone.Transition.Machine

/-!
# The order of a person's workspaces

A person's workspaces are listed by the keys of the membership rows, those without one last and by
name. `placeWorkspace` reads the list, gives a key to every row that has none, and a key between
its two new neighbours to the one that is placed.

A key is only compared with those it sees. The keys of deleted workspaces are not among them, and
come back with the workspaces; and a `SELECT … FOR UPDATE` that waits for another placement returns
the new keys in the order of the old ones. As long as neither happens, and nothing is put first
below the smallest key there is, what is placed is listed where it was put
(`shownMoved_of_reachesWhen`).
-/

namespace Sone.WorkspaceOrder

open List Option Function

open FractionalIndex

/-! ### Placing a workspace -/

/-- A row that `placeWorkspace` reads: `workspace_id` and `idx`. -/
structure MemberRow where
  workspaceId : ℕ
  idx : Option Text

inductive PlaceResult
  | placed (idx : Text)
  | refused (status : ℕ) (code : String)
  deriving DecidableEq

/-- The loop that gives keys: each row with the key it has or the one it gets, which is generated
after the last. -/
def materialise (previous : Option Text) : List MemberRow → Except Failure (List (ℕ × Text))
  | [] => .ok []
  | ⟨id, some idx⟩ :: rows => do return (id, idx) :: (← materialise (some idx) rows)
  | ⟨id, none⟩ :: rows => do
    let key ← generateKeyBetween previous none
    return (id, key) :: (← materialise (some key) rows)

/-- `placeWorkspace`: the result, and the keys it writes, of which those the rows had change
nothing. -/
def placeWorkspace (rows : List MemberRow) (workspaceId : ℕ) (afterWorkspaceId : Option ℕ) :
    Except Failure (PlaceResult × List (ℕ × Text)) :=
  if afterWorkspaceId = some workspaceId then
    .ok (.refused 409 "cannot_follow_itself", [])
  else if workspaceId ∉ rows.map (·.workspaceId) then
    .ok (.refused 404 "not_found", [])
  else if ∃ id ∈ afterWorkspaceId, id ∉ rows.map (·.workspaceId) then
    .ok (.refused 409 "sibling_not_found", [])
  else do
    let keyed ← materialise none rows
    -- the moved row is taken out first
    let ordered := keyed.filter (·.1 ≠ workspaceId)
    -- the source's −1 is no position
    let at? := afterWorkspaceId.map fun id => ordered.findIdx (·.1 = id)
    let before := (at?.bind (ordered[·]?)).map (·.2)
    let after := ordered[at?.elim 0 (· + 1)]?.map (·.2)
    let idx ← generateKeyBetween before after
    return (.placed idx, keyed ++ [(workspaceId, idx)])

/-- The `UPDATE`s: each sets the key of one row. -/
def writeKeys (idx : ℕ → Option Text) (writes : List (ℕ × Text)) : ℕ → Option Text :=
  writes.foldl (fun idx write => Function.update idx write.1 (some write.2)) idx

/-! ### A person's memberships -/

/-- A placement whose `SELECT` has begun, with the workspaces it found in their order then. -/
structure Placing where
  workspaceId : ℕ
  afterWorkspaceId : Option ℕ
  shown : List ℕ
  deriving DecidableEq

/-- The memberships of a person with their keys, which workspaces are deleted, and the placements
under way. -/
structure State where
  members : List ℕ
  idx : ℕ → Option Text
  deleted : ℕ → Bool
  placing : ℕ → Option Placing

/-- What happens: the person joins a workspace or leaves it, it is marked deleted or restored, a
placement begins its `SELECT`, which finds the workspaces as it lists them, or has its locks and
does the rest. -/
inductive Event
  | joins (id : ℕ)
  | leaves (id : ℕ)
  | deletes (id : ℕ)
  | restores (id : ℕ)
  | selects (call : ℕ) (of : Placing)
  | places (call : ℕ)

namespace State

variable (nameLe : ℕ → ℕ → Bool) (s : State)

/-- `WORKSPACE_ORDER_SQL`, where the collation says whose name comes first. -/
def comesBefore (a b : ℕ) : Bool :=
  match s.idx a, s.idx b with
  | some x, some y => x < y || x = y && nameLe a b
  | some _, none => true
  | none, some _ => false
  | none, none => nameLe a b

def visible : List ℕ := s.members.filter fun id => !s.deleted id

/-- **A list of the workspaces** by `WORKSPACE_ORDER_SQL`, which leaves open who comes first of two
without a key and with one name. -/
def IsListed (shown : List ℕ) : Prop :=
  shown.Perm s.visible ∧ shown.Pairwise fun a b => s.comesBefore nameLe a b = true

/-- The rows that the `SELECT` returns: those it found, with the newest keys. -/
def rowsOf (shown : List ℕ) : List MemberRow := shown.map fun id => ⟨id, s.idx id⟩

instance (shown : List ℕ) : Decidable (s.IsListed nameLe shown) :=
  inferInstanceAs (Decidable (_ ∧ _))

def write (writes : List (ℕ × Text)) : State := { s with idx := writeKeys s.idx writes }

/-- The state after a step. A row that is deleted is no longer among those a `SELECT` found; one
that throws is rolled back. -/
def step : Event → Option State
  | .joins id =>
    if id ∉ s.members then
      some { s with members := id :: s.members, idx := Function.update s.idx id none }
    else none
  | .leaves id =>
    some { s with
      members := s.members.filter (· ≠ id)
      placing := fun call =>
        (s.placing call).map fun of => { of with shown := of.shown.filter (· ≠ id) } }
  | .deletes id => some { s with deleted := Function.update s.deleted id true }
  | .restores id => some { s with deleted := Function.update s.deleted id false }
  | .selects call of =>
    if (s.placing call).isNone ∧ s.IsListed nameLe of.shown then
      some { s with placing := Function.update s.placing call (some of) }
    else none
  | .places call => (s.placing call).map fun of =>
    let ended := { s with placing := Function.update s.placing call none }
    match placeWorkspace (s.rowsOf of.shown) of.workspaceId of.afterWorkspaceId with
    | .error _ => ended
    | .ok (_, writes) => ended.write writes

/-- **Where a key goes wrong**: a workspace comes back with the key of one that is listed; a
placement reads what is not the list as it is now; or it puts something first below the smallest
key. -/
def GoesWrong : Event → Prop
  | .restores id => id ∈ s.members ∧ s.deleted id = true ∧
      ∃ other ∈ s.visible, (s.idx id).isSome ∧ s.idx id = s.idx other
  | .places call => ∃ of ∈ s.placing call, ¬s.IsListed nameLe of.shown ∨
      of.afterWorkspaceId = none ∧
        (of.shown.filter (· ≠ of.workspaceId)).head?.bind s.idx = some smallestInteger
  | _ => False

instance (event : Event) : Decidable (s.GoesWrong nameLe event) :=
  match event with
  | .restores _ => inferInstanceAs (Decidable (_ ∧ _ ∧ ∃ other ∈ s.visible, _))
  | .places call => inferInstanceAs (Decidable (∃ of ∈ s.placing call, _))
  | .joins _ | .leaves _ | .deletes _ | .selects _ _ => inferInstanceAs (Decidable False)

/-- **A placement is shown**: it does not throw, and the list afterwards is the list it read with
the workspace directly after the named one, or first, and all others as they were. -/
def ShownMoved (of : Placing) : Prop :=
  ∃ idx writes front rest,
    placeWorkspace (s.rowsOf of.shown) of.workspaceId of.afterWorkspaceId =
        .ok (.placed idx, writes) ∧
      of.shown.filter (· ≠ of.workspaceId) = front ++ rest ∧
      front.getLast? = of.afterWorkspaceId ∧
      ∀ shown, (s.write writes).IsListed nameLe shown ↔ shown = front ++ of.workspaceId :: rest

end State

/-- A person without memberships, and what may happen. -/
def memberships (nameLe : ℕ → ℕ → Bool) : Machine State Event where
  init s := s.members = [] ∧ ∀ call, s.placing call = none
  step s event := s.step nameLe event

/-! ### One placement -/

section Placement

variable {nameLe : ℕ → ℕ → Bool} {s : State} {rows : List MemberRow} {previous : Option Text}
  {keyed front rest : List (ℕ × Text)} {shown : List ℕ} {workspaceId id : ℕ} {idx key : Text}
  {afterWorkspaceId : Option ℕ}

/-- **Rows with their keys**: the keys are valid, in order and above a first one, and only a row
that had it has the smallest. -/
structure IsKeyed (previous : Option Text) (rows : List MemberRow)
    (keyed : List (ℕ × Text)) : Prop where
  ids : keyed.map Prod.fst = rows.map (·.workspaceId)
  above : ∀ key ∈ previous, ∀ row ∈ keyed, key < row.2
  sorted : keyed.Pairwise (·.2 < ·.2)
  valid : ∀ row ∈ keyed, validate row.2 = .ok ()
  least : ∀ row ∈ keyed, row.2 = smallestInteger → ⟨row.1, some smallestInteger⟩ ∈ rows

theorem exists_keyAfter (hprevious : ∀ key ∈ previous, validate key = .ok ()) :
    ∃ key, generateKeyBetween previous none = .ok key ∧ validate key = .ok () ∧
      (∀ b ∈ previous, b < key) ∧ key ≠ smallestInteger := by
  obtain ⟨key, hkey, hvalid, habove, -⟩ :=
    exists_key previous none hprevious (by simp) (by simp) (by simp)
  refine ⟨key, hkey, hvalid, habove, ?_⟩
  rcases previous with _ | before
  · obtain rfl : firstIndex = key := Except.ok.inj (generateKeyBetween_none.symm.trans hkey)
    decide +kernel
  · rintro rfl
    obtain ⟨int, frac, rfl, hint, hfrac⟩ := validate_eq_ok_iff.mp (hprevious before rfl)
    exact not_lt_smallestInteger hint hfrac.isDigits (habove _ rfl)

theorem IsKeyed.cons (h : IsKeyed (some key) rows keyed) (hvalid : validate key = .ok ())
    (habove : ∀ before ∈ previous, before < key) {row : MemberRow}
    (hleast : key = smallestInteger → row.idx = some key) :
    IsKeyed previous (row :: rows) ((row.workspaceId, key) :: keyed) where
  ids := by rw [map_cons, map_cons, h.ids]
  above before hbefore := forall_mem_cons.mpr ⟨habove before hbefore, fun row hrow =>
    (habove before hbefore).trans (h.above key rfl row hrow)⟩
  sorted := pairwise_cons.mpr ⟨h.above key rfl, h.sorted⟩
  valid := forall_mem_cons.mpr ⟨hvalid, h.valid⟩
  least := forall_mem_cons.mpr ⟨fun heq => by simp [← hleast heq, ← heq],
    fun row hrow heq => mem_cons_of_mem _ (h.least row hrow heq)⟩

/-- **Every row gets a key**, where those that have one come first and in order. -/
theorem exists_materialise (rows : List MemberRow) (previous : Option Text)
    (hprevious : ∀ key ∈ previous, validate key = .ok ())
    (hvalid : ∀ row ∈ rows, ∀ key ∈ row.idx, validate key = .ok ())
    (habove : ∀ before ∈ previous, ∀ row ∈ rows, ∀ key ∈ row.idx, before < key)
    (hsorted : rows.Pairwise fun row next => ∀ key ∈ next.idx, ∃ before ∈ row.idx, before < key) :
    ∃ keyed, materialise previous rows = .ok keyed ∧ IsKeyed previous rows keyed := by
  induction rows generalizing previous with
  | nil => exact ⟨[], rfl, by constructor <;> simp⟩
  | cons row rows ih =>
    obtain ⟨id, _ | key⟩ := row
    · -- no row after one without a key has one
      obtain ⟨hfirst, hsorted⟩ := pairwise_cons.mp hsorted
      obtain ⟨key, hkey, hvalidKey, hlow, hne⟩ := exists_keyAfter hprevious
      obtain ⟨keyed, hkeyed, hrest⟩ := ih (some key) (by simpa using hvalidKey)
        (fun row hrow => hvalid row (mem_cons_of_mem _ hrow))
        (fun _ _ row hrow k hk => absurd (hfirst row hrow k hk) (by simp)) hsorted
      refine ⟨(id, key) :: keyed, ?_, hrest.cons hvalidKey hlow fun heq => absurd heq hne⟩
      simp [materialise, hkey, hkeyed, bind, Except.bind, pure, Except.pure]
    · obtain ⟨hfirst, hsorted⟩ := pairwise_cons.mp hsorted
      obtain ⟨hvalidKey, hvalid⟩ := forall_mem_cons.mp hvalid
      obtain ⟨keyed, hkeyed, hrest⟩ := ih (some key) (by simpa using hvalidKey) hvalid
        (by
          rintro _ ⟨⟩ row hrow k hk
          obtain ⟨_, ⟨⟩, hlt⟩ := hfirst row hrow k hk
          exact hlt) hsorted
      refine ⟨(id, key) :: keyed, ?_, hrest.cons (hvalidKey key rfl)
        (fun before hbefore => habove before hbefore _ mem_cons_self key rfl) fun _ => rfl⟩
      simp [materialise, hkeyed, bind, Except.bind, pure, Except.pure]

/-- **Which key is generated**: one between the neighbours of the place. -/
theorem placeWorkspace_eq (hkeyed : materialise none rows = .ok keyed)
    (hids : keyed.map Prod.fst = rows.map (·.workspaceId)) (hnodup : (keyed.map Prod.fst).Nodup)
    (hlisted : workspaceId ∈ rows.map (·.workspaceId)) (hne : afterWorkspaceId ≠ some workspaceId)
    (hsplit : keyed.filter (·.1 ≠ workspaceId) = front ++ rest)
    (hlast : front.getLast?.map Prod.fst = afterWorkspaceId)
    (hkey : generateKeyBetween (front.getLast?.map Prod.snd) (rest.head?.map Prod.snd) =
      .ok idx) :
    placeWorkspace rows workspaceId afterWorkspaceId =
      .ok (.placed idx, keyed ++ [(workspaceId, idx)]) := by
  have hsub : (front ++ rest).Sublist keyed := hsplit ▸ filter_sublist
  have hsibling : ¬∃ id ∈ afterWorkspaceId, id ∉ rows.map (·.workspaceId) := by
    rintro ⟨id, hid, hnot⟩
    obtain ⟨row, hrow, rfl⟩ := map_eq_some_iff.mp (hlast.trans hid)
    exact hnot (hids ▸ List.mem_map_of_mem
      (hsub.subset (mem_append_left _ (mem_of_getLast? hrow))))
  rw [placeWorkspace, if_neg hne, if_neg (not_not.mpr hlisted), if_neg hsibling, hkeyed]
  simp only [bind, Except.bind, hsplit]
  rcases eq_nil_or_concat' front with rfl | ⟨init, ⟨id, before⟩, rfl⟩
  · obtain rfl : none = afterWorkspaceId := hlast
    rw [List.getLast?_nil, map_none, List.head?_eq_getElem?] at hkey
    simp [hkey, pure, Except.pure]
  · rw [List.getLast?_concat] at hlast hkey
    obtain rfl : some id = afterWorkspaceId := hlast
    rw [append_assoc, singleton_append] at hsub ⊢
    have hnodup' := hnodup.sublist (hsub.map Prod.fst)
    rw [map_append, nodup_append] at hnodup'
    have hnone : ∀ row ∈ init, decide (row.1 = id) = false := fun row hrow =>
      decide_eq_false (hnodup'.2.2 _ (List.mem_map_of_mem hrow) id (by simp))
    have hfind : (init ++ (id, before) :: rest).findIdx (·.1 = id) = init.length := by
      simp [findIdx_append, findIdx_eq_length_of_false hnone, findIdx_cons]
    have hnext : (init ++ (id, before) :: rest)[init.length + 1]? = rest.head? := by
      simp [List.getElem?_append_right, List.head?_eq_getElem?]
    simp only [map_some, bind_some, elim_some, hfind, hnext,
      List.getElem?_append_right (Nat.le_refl _), Nat.sub_self, List.getElem?_cons_zero]
    change generateKeyBetween (some before) (rest.head?.map Prod.snd) = .ok idx at hkey
    rw [hkey]
    rfl

theorem exists_place (ordered : List (ℕ × Text))
    (hafter : ∀ id ∈ afterWorkspaceId, id ∈ ordered.map Prod.fst) :
    ∃ front rest, ordered = front ++ rest ∧ front.getLast?.map Prod.fst = afterWorkspaceId := by
  rcases afterWorkspaceId with _ | id
  · exact ⟨[], ordered, rfl, rfl⟩
  · obtain ⟨row, hmem, rfl⟩ := List.mem_map.mp (hafter id rfl)
    obtain ⟨front, rest, rfl⟩ := append_of_mem hmem
    exact ⟨front ++ [row], rest, by simp, by simp⟩

theorem map_fst_filter (keyed : List (ℕ × Text)) (workspaceId : ℕ) :
    (keyed.filter (·.1 ≠ workspaceId)).map Prod.fst =
      (keyed.map Prod.fst).filter (· ≠ workspaceId) := by
  rw [List.filter_map]
  rfl

theorem writeKeys_of_notMem {f : ℕ → Option Text} (h : id ∉ keyed.map Prod.fst) :
    writeKeys f keyed id = f id := by
  induction keyed generalizing f with
  | nil => rfl
  | cons write keyed ih =>
    rw [map_cons, mem_cons, not_or] at h
    exact (ih h.2).trans (update_of_ne h.1 _ _)

theorem writeKeys_of_mem {f : ℕ → Option Text} (hnodup : (keyed.map Prod.fst).Nodup)
    (h : (id, key) ∈ keyed) : writeKeys f keyed id = some key := by
  induction keyed generalizing f with
  | nil => exact absurd h not_mem_nil
  | cons write keyed ih =>
    obtain ⟨hnot, hnodup⟩ := nodup_cons.mp hnodup
    rcases mem_cons.mp h with rfl | h
    · exact (writeKeys_of_notMem hnot).trans (update_self _ _ _)
    · exact ih hnodup h

theorem pairwise_between (h : (front ++ rest).Pairwise (·.2 < ·.2))
    (hlow : ∀ row ∈ front.getLast?, row.2 < idx) (hup : ∀ row ∈ rest.head?, idx < row.2) :
    (front ++ (id, idx) :: rest).Pairwise (·.2 < ·.2) := by
  have htrans : IsTrans (ℕ × Text) (·.2 < ·.2) := ⟨fun _ _ _ => lt_trans⟩
  rw [← isChain_iff_pairwise, isChain_append] at h ⊢
  refine ⟨h.1, isChain_cons.mpr ⟨hup, h.2.1⟩, fun row hrow next hnext => ?_⟩
  obtain rfl : (id, idx) = next := some.inj hnext
  exact hlow row hrow

/-! ### Every placement of a run -/

/-- **The invariant**: keys are valid, and no two workspaces that are listed have one. -/
structure Inv (s : State) : Prop where
  nodup : s.members.Nodup
  valid : ∀ id ∈ s.members, ∀ key ∈ s.idx id, validate key = .ok ()
  differ : ∀ id ∈ s.visible, ∀ other ∈ s.visible, ∀ key ∈ s.idx id, key ∈ s.idx other → id = other

theorem Inv.pairwise_rowsOf (h : Inv s) (hlisted : s.IsListed nameLe shown) :
    (s.rowsOf shown).Pairwise fun row next =>
      ∀ key ∈ next.idx, ∃ before ∈ row.idx, before < key := by
  obtain ⟨hperm, hsorted⟩ := hlisted
  have hnodup : shown.Nodup := hperm.nodup_iff.mpr (h.nodup.filter _)
  rw [State.rowsOf, pairwise_map]
  refine (hsorted.and hnodup).imp_of_mem fun {id other} hid hother hboth key hkey => ?_
  obtain ⟨hle, hne⟩ := hboth
  simp only [mem_def] at hkey
  rw [State.comesBefore, hkey] at hle
  rcases hbefore : s.idx id with _ | before
  · simp [hbefore] at hle
  · refine ⟨before, rfl, ?_⟩
    rw [hbefore, Bool.or_eq_true, decide_eq_true_eq, Bool.and_eq_true, decide_eq_true_eq] at hle
    rcases hle with hlt | ⟨rfl, -⟩
    · exact hlt
    · exact absurd (h.differ id (hperm.subset hid) other (hperm.subset hother) before hbefore hkey)
        hne

/-- **What a placement writes**: the list with the workspace in its place has keys in order. -/
structure IsPlaced (shown : List ℕ) (workspaceId : ℕ) (afterWorkspaceId : Option ℕ)
    (keyed front rest : List (ℕ × Text)) (idx : Text) : Prop where
  ids : keyed.map Prod.fst = shown
  split : keyed.filter (·.1 ≠ workspaceId) = front ++ rest
  asked : front.getLast?.map Prod.fst = afterWorkspaceId
  sorted : (front ++ (workspaceId, idx) :: rest).Pairwise (·.2 < ·.2)
  valid : ∀ row ∈ front ++ (workspaceId, idx) :: rest, validate row.2 = .ok ()

/-- **A placement that reads the list as it is** gives the workspace a key in its place. -/
theorem Inv.exists_isPlaced (h : Inv s) (hlisted : s.IsListed nameLe shown)
    (hmem : workspaceId ∈ shown) (hafter : ∀ id ∈ afterWorkspaceId, id ∈ shown ∧ id ≠ workspaceId)
    (hroom : ¬(afterWorkspaceId = none ∧
      (shown.filter (· ≠ workspaceId)).head?.bind s.idx = some smallestInteger)) :
    ∃ keyed front rest idx, placeWorkspace (s.rowsOf shown) workspaceId afterWorkspaceId =
        .ok (.placed idx, keyed ++ [(workspaceId, idx)]) ∧
      IsPlaced shown workspaceId afterWorkspaceId keyed front rest idx := by
  have hshown : (s.rowsOf shown).map (·.workspaceId) = shown := by
    simp [State.rowsOf, comp_def]
  have hnodup : shown.Nodup := hlisted.1.nodup_iff.mpr (h.nodup.filter _)
  obtain ⟨keyed, hkeyed, hids, -, hsorted, hvalid, hleast⟩ :=
    exists_materialise (s.rowsOf shown) none (by simp)
      (by
        intro row hrow key hkey
        obtain ⟨id, hid, rfl⟩ := List.mem_map.mp hrow
        exact h.valid id (mem_of_mem_filter (hlisted.1.subset hid)) key hkey)
      (by simp) (h.pairwise_rowsOf hlisted)
  have hfst : (keyed.filter (·.1 ≠ workspaceId)).map Prod.fst =
      shown.filter (· ≠ workspaceId) := by
    rw [map_fst_filter, hids, hshown]
  have hsiblings : ∀ id ∈ afterWorkspaceId,
      id ∈ (keyed.filter (·.1 ≠ workspaceId)).map Prod.fst := fun id hid => by
    rw [hfst]
    exact mem_filter.mpr ⟨(hafter id hid).1, by simpa using (hafter id hid).2⟩
  obtain ⟨front, rest, hsplit, hlast⟩ := exists_place _ hsiblings
  have hsub : (front ++ rest).Sublist keyed := hsplit ▸ filter_sublist
  have hordered := hsorted.sublist hsub
  obtain ⟨idx, hkey, hvalidKey, hlow, hup⟩ := exists_key (front.getLast?.map Prod.snd)
    (rest.head?.map Prod.snd)
    (by
      intro b hb
      obtain ⟨row, hrow, rfl⟩ := Option.mem_map.mp hb
      exact hvalid row (hsub.subset (mem_append_left _ (mem_of_getLast? hrow))))
    (by
      intro a ha
      obtain ⟨row, hrow, rfl⟩ := Option.mem_map.mp ha
      exact hvalid row (hsub.subset (mem_append_right _ (mem_of_mem_head? hrow))))
    (by
      intro b hb a ha
      obtain ⟨row, hrow, rfl⟩ := Option.mem_map.mp hb
      obtain ⟨next, hnext, rfl⟩ := Option.mem_map.mp ha
      exact (pairwise_append.mp hordered).2.2 row (mem_of_getLast? hrow) next
        (mem_of_mem_head? hnext))
    (by
      rintro ⟨hnone, hsmallest⟩
      obtain ⟨row, hrow, hleastKey⟩ := map_eq_some_iff.mp hsmallest
      rw [map_eq_none_iff, List.getLast?_eq_none_iff] at hnone
      subst hnone
      refine hroom ⟨hlast.symm, ?_⟩
      rw [← hfst, hsplit, nil_append, List.head?_map, hrow]
      obtain ⟨id, -, hid⟩ := List.mem_map.mp
        (hleast row (hsub.subset (mem_of_mem_head? hrow)) hleastKey)
      obtain ⟨rfl, hidx⟩ := MemberRow.mk.inj hid
      exact hidx)
  refine ⟨keyed, front, rest, idx, placeWorkspace_eq hkeyed hids (by rwa [hids, hshown])
    (by rwa [hshown]) (fun heq => (hafter _ heq).2 rfl) hsplit hlast hkey,
    hids.trans hshown, hsplit, hlast, ?_, ?_⟩
  · exact pairwise_between hordered (fun row hrow => hlow _ (Option.mem_map_of_mem _ hrow))
      fun row hrow => hup _ (Option.mem_map_of_mem _ hrow)
  · intro row hrow
    rcases mem_append.mp hrow with hrow | hrow
    · exact hvalid row (hsub.subset (mem_append_left _ hrow))
    · rcases mem_cons.mp hrow with rfl | hrow
      · exact hvalidKey
      · exact hvalid row (hsub.subset (mem_append_right _ hrow))

namespace IsPlaced

variable (h : IsPlaced shown workspaceId afterWorkspaceId keyed front rest idx)
include h

theorem perm (hnodup : shown.Nodup) (hmem : workspaceId ∈ shown) :
    ((front ++ (workspaceId, idx) :: rest).map Prod.fst).Perm shown := by
  have hfst : (front ++ rest).map Prod.fst = shown.erase workspaceId := by
    rw [← h.split, map_fst_filter, h.ids, hnodup.erase_eq_filter]
    exact filter_congr fun row _ => by simp [bne, Bool.beq_eq_decide_eq]
  refine ((perm_middle.map Prod.fst).trans ?_).trans (perm_cons_erase hmem).symm
  rw [map_cons, hfst]

theorem writeKeys_eq (hnodup : shown.Nodup) (f : ℕ → Option Text)
    (hrow : (id, key) ∈ front ++ (workspaceId, idx) :: rest) :
    writeKeys f (keyed ++ [(workspaceId, idx)]) id = some key := by
  have hlast : writeKeys f (keyed ++ [(workspaceId, idx)]) =
      Function.update (writeKeys f keyed) workspaceId (some idx) := foldl_append
  have hrow' : (id, key) = (workspaceId, idx) ∨ (id, key) ∈ front ++ rest := by
    rw [← mem_cons]
    exact perm_middle.mem_iff.mp hrow
  rw [hlast]
  rcases hrow' with heq | hrow
  · obtain ⟨rfl, rfl⟩ := Prod.mk.inj heq
    exact update_self _ _ _
  · rw [← h.split, mem_filter, decide_eq_true_eq] at hrow
    exact (update_of_ne hrow.2 _ _).trans
      (writeKeys_of_mem (h.ids ▸ hnodup) hrow.1)

theorem id_eq {other : ℕ} (hid : (id, key) ∈ front ++ (workspaceId, idx) :: rest)
    (hother : (other, key) ∈ front ++ (workspaceId, idx) :: rest) : id = other := by
  have hnodup : ((front ++ (workspaceId, idx) :: rest).map Prod.snd).Nodup :=
    pairwise_map.mpr (h.sorted.imp fun hlt => hlt.ne)
  exact congrArg Prod.fst (inj_on_of_nodup_map hnodup hid hother rfl)

theorem writeKeys_eq_of_notMem (hmem : workspaceId ∈ shown) (f : ℕ → Option Text)
    (hnot : id ∉ shown) : writeKeys f (keyed ++ [(workspaceId, idx)]) id = f id := by
  refine writeKeys_of_notMem fun hin => ?_
  rw [map_append, h.ids, map_singleton, mem_append, mem_singleton] at hin
  rcases hin with hin | rfl
  · exact hnot hin
  · exact hnot hmem

end IsPlaced

theorem comesBefore_of_lt {other : ℕ} {key' : Text} (hid : s.idx id = some key)
    (hother : s.idx other = some key') (hlt : key < key') :
    s.comesBefore nameLe id other = true ∧ s.comesBefore nameLe other id = false := by
  rw [State.comesBefore, State.comesBefore, hid, hother]
  simp [hlt, hlt.not_gt, hlt.ne']

/-- **The list is the one that was asked for** after a placement that reads it as it is. -/
theorem IsPlaced.isListed_iff (h : IsPlaced shown workspaceId afterWorkspaceId keyed front rest idx)
    (hnodup : shown.Nodup) (hlisted : s.IsListed nameLe shown) (hmem : workspaceId ∈ shown)
    (shown' : List ℕ) : (s.write (keyed ++ [(workspaceId, idx)])).IsListed nameLe shown' ↔
      shown' = (front ++ (workspaceId, idx) :: rest).map Prod.fst := by
  have hperm := (h.perm hnodup hmem).trans hlisted.1
  have hsorted : ((front ++ (workspaceId, idx) :: rest).map Prod.fst).Pairwise fun a b =>
      (s.write (keyed ++ [(workspaceId, idx)])).comesBefore nameLe a b = true :=
    pairwise_map.mpr (h.sorted.imp_of_mem fun hrow hnext hlt => (comesBefore_of_lt
      (h.writeKeys_eq hnodup s.idx hrow) (h.writeKeys_eq hnodup s.idx hnext) hlt).1)
  refine ⟨fun hshown => ?_, fun heq => heq ▸ ⟨hperm, hsorted⟩⟩
  refine List.Perm.eq_of_pairwise (fun id other hid hother hle hge => ?_) hshown.2 hsorted
    (hshown.1.trans hperm.symm)
  -- of two that differ one has the smaller key
  obtain ⟨first, hfirst, rfl⟩ := List.mem_map.mp ((hshown.1.trans hperm.symm).subset hid)
  obtain ⟨second, hsecond, rfl⟩ := List.mem_map.mp hother
  have hkey := h.writeKeys_eq hnodup s.idx hfirst
  have hkey' := h.writeKeys_eq hnodup s.idx hsecond
  rcases lt_trichotomy first.2 second.2 with hlt | heq | hlt
  · exact absurd hge (Bool.eq_false_iff.mp (comesBefore_of_lt hkey hkey' hlt).2)
  · exact h.id_eq hfirst (heq ▸ hsecond)
  · exact absurd hle (Bool.eq_false_iff.mp (comesBefore_of_lt hkey' hkey hlt).2)

theorem IsPlaced.inv (h : IsPlaced shown workspaceId afterWorkspaceId keyed front rest idx)
    (hinv : Inv s) (hlisted : s.IsListed nameLe shown) (hmem : workspaceId ∈ shown) :
    Inv (s.write (keyed ++ [(workspaceId, idx)])) := by
  have hnodup : shown.Nodup := hlisted.1.nodup_iff.mpr (hinv.nodup.filter _)
  -- every listed workspace has a row of its own with the key it has afterwards
  have hrow : ∀ id ∈ shown, ∃ key, (id, key) ∈ front ++ (workspaceId, idx) :: rest := by
    intro id hid
    obtain ⟨row, hrow, rfl⟩ := List.mem_map.mp ((h.perm hnodup hmem).mem_iff.mpr hid)
    exact ⟨row.2, hrow⟩
  refine ⟨hinv.nodup, fun id hid key hkey => ?_, fun id hid other hother key hkey hkey' => ?_⟩
  · by_cases hin : id ∈ shown
    · obtain ⟨key', hin⟩ := hrow id hin
      obtain rfl : key' = key := some.inj ((h.writeKeys_eq hnodup s.idx hin).symm.trans hkey)
      exact h.valid _ hin
    · exact hinv.valid id hid key ((h.writeKeys_eq_of_notMem hmem s.idx hin).symm.trans hkey)
  · obtain ⟨first, hfirst⟩ := hrow id (hlisted.1.mem_iff.mpr hid)
    obtain ⟨second, hsecond⟩ := hrow other (hlisted.1.mem_iff.mpr hother)
    obtain rfl := some.inj ((h.writeKeys_eq hnodup s.idx hfirst).symm.trans hkey)
    obtain rfl := some.inj ((h.writeKeys_eq hnodup s.idx hsecond).symm.trans hkey')
    exact h.id_eq hfirst hsecond

theorem Inv.shownMoved {of : Placing} (h : Inv s) (hlisted : s.IsListed nameLe of.shown)
    (hmem : of.workspaceId ∈ of.shown)
    (hafter : ∀ id ∈ of.afterWorkspaceId, id ∈ of.shown ∧ id ≠ of.workspaceId)
    (hroom : ¬(of.afterWorkspaceId = none ∧
      (of.shown.filter (· ≠ of.workspaceId)).head?.bind s.idx = some smallestInteger)) :
    s.ShownMoved nameLe of := by
  obtain ⟨keyed, front, rest, idx, hplace, hplaced⟩ := h.exists_isPlaced hlisted hmem hafter hroom
  have hnodup : of.shown.Nodup := hlisted.1.nodup_iff.mpr (h.nodup.filter _)
  refine ⟨idx, _, front.map Prod.fst, rest.map Prod.fst, hplace, ?_, ?_, fun shown => ?_⟩
  · rw [← map_append, ← hplaced.split, map_fst_filter, hplaced.ids]
  · rw [List.getLast?_map]
    exact hplaced.asked
  · rw [hplaced.isListed_iff hnodup hlisted hmem]
    simp

theorem State.mem_visible : id ∈ s.visible ↔ id ∈ s.members ∧ s.deleted id = false := by
  rw [State.visible, mem_filter, Bool.not_eq_true']

theorem Inv.of_subset {s' : State} (h : Inv s) (hidx : s'.idx = s.idx)
    (hnodup : s'.members.Nodup) (hmembers : s'.members ⊆ s.members)
    (hvisible : s'.visible ⊆ s.visible) : Inv s' where
  nodup := hnodup
  valid id hid := hidx ▸ h.valid id (hmembers hid)
  differ id hid other hother := hidx ▸ h.differ id (hvisible hid) other (hvisible hother)

theorem Inv.joins (h : Inv s) (hnew : id ∉ s.members) :
    Inv { s with members := id :: s.members, idx := Function.update s.idx id none } := by
  have hkeep : ∀ other key, key ∈ Function.update s.idx id none other →
      other ≠ id ∧ key ∈ s.idx other := by
    intro other key hkey
    by_cases heq : other = id
    · rw [heq, update_self] at hkey
      exact absurd hkey (by simp)
    · exact ⟨heq, by rwa [update_of_ne heq] at hkey⟩
  have hvisible : ∀ other, other ≠ id → other ∈ State.visible
      { s with members := id :: s.members, idx := Function.update s.idx id none } →
        other ∈ s.visible := by
    intro other hne hother
    obtain ⟨hmem, hdeleted⟩ := State.mem_visible.mp hother
    exact State.mem_visible.mpr ⟨(mem_cons.mp hmem).resolve_left hne, hdeleted⟩
  refine ⟨nodup_cons.mpr ⟨hnew, h.nodup⟩, fun other hother key hkey => ?_,
    fun first hfirst second hsecond key hkey hkey' => ?_⟩
  · obtain ⟨hne, hkey⟩ := hkeep other key hkey
    exact h.valid other ((mem_cons.mp hother).resolve_left hne) key hkey
  · obtain ⟨hne, hkey⟩ := hkeep first key hkey
    obtain ⟨hne', hkey'⟩ := hkeep second key hkey'
    exact h.differ first (hvisible first hne hfirst) second (hvisible second hne' hsecond) key hkey
      hkey'

theorem Inv.restores (h : Inv s) (hfine : ¬s.GoesWrong nameLe (.restores id)) :
    Inv { s with deleted := Function.update s.deleted id false } := by
  have hvisible : ∀ other, other ∈ State.visible
      { s with deleted := Function.update s.deleted id false } →
        other ∈ s.visible ∨ other = id ∧ id ∈ s.members ∧ s.deleted id = true := by
    intro other hother
    obtain ⟨hmem, hdeleted⟩ := State.mem_visible.mp hother
    rw [State.mem_visible]
    by_cases heq : other = id
    · subst heq
      rcases hkept : s.deleted other with _ | _
      · exact .inl ⟨hmem, rfl⟩
      · exact .inr ⟨rfl, hmem, rfl⟩
    · exact .inl ⟨hmem, by simpa [update_of_ne heq] using hdeleted⟩
  have hback : ∀ other ∈ s.visible, id ∈ s.members ∧ s.deleted id = true → ∀ key ∈ s.idx id,
      key ∉ s.idx other := fun other hother hid key hkey hkey' =>
    hfine ⟨hid.1, hid.2, other, hother, isSome_iff_exists.mpr ⟨key, hkey⟩,
      hkey.trans hkey'.symm⟩
  refine ⟨h.nodup, h.valid, fun first hfirst second hsecond key hkey hkey' => ?_⟩
  rcases hvisible first hfirst with hold | ⟨rfl, hdeleted⟩ <;>
    rcases hvisible second hsecond with hold' | ⟨rfl, hdeleted'⟩
  · exact h.differ first hold second hold' key hkey hkey'
  · exact absurd hkey (hback first hold hdeleted' key hkey')
  · exact absurd hkey' (hback second hold' hdeleted key hkey)
  · rfl

theorem Inv.places {of : Placing} {call : ℕ} (h : Inv s) (hcall : s.placing call = some of)
    (hfine : ¬s.GoesWrong nameLe (.places call)) :
    match placeWorkspace (s.rowsOf of.shown) of.workspaceId of.afterWorkspaceId with
    | .error _ => True
    | .ok (_, writes) => Inv (s.write writes) := by
  obtain ⟨hlisted, hroom⟩ := not_or.mp (not_exists.mp hfine of ∘ And.intro hcall)
  have hids : (s.rowsOf of.shown).map (·.workspaceId) = of.shown := by
    simp [State.rowsOf, comp_def]
  by_cases hself : of.afterWorkspaceId = some of.workspaceId
  · rw [placeWorkspace, if_pos hself]
    exact h
  by_cases hmem : of.workspaceId ∈ of.shown
  · by_cases hsibling : ∃ id ∈ of.afterWorkspaceId, id ∉ of.shown
    · rw [placeWorkspace, if_neg hself, hids, if_neg (not_not.mpr hmem), if_pos hsibling]
      exact h
    · have hafter : ∀ id ∈ of.afterWorkspaceId, id ∈ of.shown ∧ id ≠ of.workspaceId :=
        fun id hid => ⟨by_contra fun hnot => hsibling ⟨id, hid, hnot⟩, fun heq => hself (heq ▸ hid)⟩
      obtain ⟨keyed, front, rest, idx, hplace, hplaced⟩ :=
        h.exists_isPlaced (not_not.mp hlisted) hmem hafter hroom
      rw [hplace]
      exact hplaced.inv h (not_not.mp hlisted) hmem
  · rw [placeWorkspace, if_neg hself, hids, if_pos hmem]
    exact h

/-- **A step** that does not go wrong keeps the invariant. -/
theorem Inv.step {s' : State} {event : Event} (h : Inv s) (hfine : ¬s.GoesWrong nameLe event)
    (hstep : s.step nameLe event = some s') : Inv s' := by
  rcases event with id | id | id | id | ⟨call, of⟩ | call
  · simp only [State.step] at hstep
    split_ifs at hstep with hnew
    obtain rfl := some.inj hstep
    exact h.joins hnew
  · obtain rfl := some.inj hstep
    refine h.of_subset rfl (h.nodup.filter _) filter_sublist.subset fun other hother => ?_
    obtain ⟨hmem, hdeleted⟩ := State.mem_visible.mp hother
    exact State.mem_visible.mpr ⟨mem_of_mem_filter hmem, hdeleted⟩
  · obtain rfl := some.inj hstep
    refine h.of_subset rfl h.nodup (List.Subset.refl _) fun other hother => ?_
    obtain ⟨hmem, hdeleted⟩ := State.mem_visible.mp hother
    refine State.mem_visible.mpr ⟨hmem, ?_⟩
    by_cases heq : other = id
    · simp [heq] at hdeleted
    · simpa [update_of_ne heq] using hdeleted
  · obtain rfl := some.inj hstep
    exact h.restores hfine
  · simp only [State.step] at hstep
    split_ifs at hstep
    obtain rfl := some.inj hstep
    exact h.of_subset rfl h.nodup (List.Subset.refl _) (List.Subset.refl _)
  · obtain ⟨of, hcall, rfl⟩ := map_eq_some_iff.mp hstep
    have hplaces := h.places hcall hfine
    rcases hrun : placeWorkspace (s.rowsOf of.shown) of.workspaceId of.afterWorkspaceId with
      failure | ⟨result, writes⟩
    · exact h.of_subset rfl h.nodup (List.Subset.refl _) (List.Subset.refl _)
    · rw [hrun] at hplaces
      exact hplaces.of_subset rfl h.nodup (List.Subset.refl _) (List.Subset.refl _)

/-- **When a workspace is shown where it was placed.** In every run in which no workspace comes
back with the key of a listed one, every placement reads the list as it is, and none is first below
the smallest key, each placement of a listed workspace after another one, or first, is shown. -/
theorem shownMoved_of_reachesWhen {call : ℕ} {of : Placing}
    (h : (memberships nameLe).ReachesWhen (fun s e => ¬s.GoesWrong nameLe e) s)
    (hcall : s.placing call = some of) (hfine : ¬s.GoesWrong nameLe (.places call))
    (hmem : of.workspaceId ∈ of.shown)
    (hafter : ∀ id ∈ of.afterWorkspaceId, id ∈ of.shown ∧ id ≠ of.workspaceId) :
    s.ShownMoved nameLe of := by
  have hinv : Inv s := h.invariant (fun s hinit => by
    refine ⟨?_, ?_, ?_⟩ <;> simp [hinit.1, State.visible])
    fun s e s' hinv hfine hstep => hinv.step hfine hstep
  obtain ⟨hlisted, hroom⟩ := not_or.mp (not_exists.mp hfine of ∘ And.intro hcall)
  exact hinv.shownMoved (not_not.mp hlisted) hmem hafter hroom

end Placement

/-! ### A workspace that comes back -/

/-- Names in the order of the ids. -/
def byId (a b : ℕ) : Bool := a ≤ b

def noMemberships : State where
  members := []
  idx := fun _ => none
  deleted := fun _ => false
  placing := fun _ => none

/-- Of two workspaces the second is put first; the first one is deleted. A third is joined, and the
second put after it. -/
def putTwice : List Event :=
  [.joins 1, .joins 2, .selects 0 ⟨2, none, [1, 2]⟩, .places 0, .deletes 1, .joins 3,
    .selects 0 ⟨2, some 3, [2, 3]⟩, .places 0]

/-- **A deleted workspace comes back** with the key that another one got in the meantime, and
nothing can be put between the two. -/
theorem not_shownMoved_restored : ¬∀ nameLe s, (memberships nameLe).Reaches s → ∀ call of,
    s.placing call = some of → of.workspaceId ∈ of.shown →
      (∀ id ∈ of.afterWorkspaceId, id ∈ of.shown ∧ id ≠ of.workspaceId) →
        s.ShownMoved nameLe of := by
  intro hall
  have hreach : ∃ s, (memberships byId).Reaches s ∧ s.placing 0 = some ⟨2, some 1, [1, 3, 2]⟩ ∧
      (placeWorkspace (s.rowsOf [1, 3, 2]) 2 (some 1)).toOption = none :=
    Machine.exists_reachesWhen_of_runWhen
      (putTwice ++ [.restores 1, .selects 0 ⟨2, some 1, [1, 3, 2]⟩])
      (⟨rfl, fun _ => rfl⟩ : (memberships byId).init noMemberships) (by decide +kernel)
  obtain ⟨s, hs, hcall, hthrows⟩ := hreach
  obtain ⟨idx, writes, front, rest, hplace, -⟩ :=
    hall _ s hs 0 _ hcall (by decide) (by rintro _ ⟨⟩; decide)
  rw [hplace] at hthrows
  exact absurd hthrows (by simp [Except.toOption])

/-- The hypotheses can be met: the second workspace is put after the third. -/
theorem shownMoved_of_reachesWhen_putTwice : ∃ s, s.placing 0 = some ⟨2, some 3, [2, 3]⟩ ∧
    State.ShownMoved byId s ⟨2, some 3, [2, 3]⟩ := by
  have hreach : ∃ s, (memberships byId).ReachesWhen (fun s e => ¬s.GoesWrong byId e) s ∧
      s.placing 0 = some ⟨2, some 3, [2, 3]⟩ ∧ ¬s.GoesWrong byId (.places 0) :=
    Machine.exists_reachesWhen_of_runWhen putTwice.dropLast
      (⟨rfl, fun _ => rfl⟩ : (memberships byId).init noMemberships) (by decide +kernel)
  obtain ⟨s, hs, hcall, hfine⟩ := hreach
  exact ⟨s, hcall, shownMoved_of_reachesWhen hs hcall hfine (by decide) (by rintro _ ⟨⟩; decide)⟩

end Sone.WorkspaceOrder
