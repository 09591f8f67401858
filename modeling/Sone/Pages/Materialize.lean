import Sone.Pages.Table

/-!
# The projection of a document

`materializeDocument` (`materialize/materialize.ts`) writes the row of a page from its
document. The parent the document asks for is taken where it may be (`computeAncestors`): one
in another workspace, or one that would put the page under itself, is not, and the page keeps
the parent its row has (`keepExisting`). Where the parent of a row that was there changed, the
paths of all that is under it are rewritten (`cascadeAncestors`); a page that is written for
the first time has no cascade, although rows that name it as their parent may be there.

`places_materializeDocument_of_some` is what the projection does to a tree whose paths agree with
its parents: a page that was there is hung elsewhere with all that is under it.
-/

namespace Sone

open List Option Function

/-- `path.slice(-128)`. -/
def lastIds (path : List Uuid) : List Uuid := path.drop (path.length - 128)

/-- `keepExisting`: the parent the row has, by the row of that parent as it is read. -/
def keepExisting (pageId : Uuid) (existingParentId : Option Uuid)
    (existingParent : Option PageTreeRow) : Place Uuid :=
  match existingParentId, existingParent with
  | some parentId, some row =>
    let path := row.ancestorIds ++ [parentId]
    if pageId ∈ path then ⟨none, []⟩ else ⟨some parentId, lastIds path⟩
  | _, _ => ⟨none, []⟩

/-- `computeAncestors`: the parent a row is given, and its path, by the rows of the parent
asked for and of the one there is, as they are read. -/
def computeAncestors (pageId : Uuid) (parentPageId : Option Uuid) (workspaceId : Uuid)
    (existingParentId : Option Uuid) (parent existingParent : Option PageTreeRow) : Place Uuid :=
  match parentPageId with
  | none => ⟨none, []⟩
  | some parentId =>
    match parent with
    -- not projected yet
    | none => ⟨some parentId, [parentId]⟩
    | some row =>
      if row.workspaceId ≠ workspaceId then keepExisting pageId existingParentId existingParent
      else
        let path := row.ancestorIds ++ [parentId]
        if pageId ∈ path then keepExisting pageId existingParentId existingParent
        else if path.length > 128 then ⟨some parentId, lastIds path⟩
        else ⟨some parentId, path⟩

namespace PageTable

/-- The rows that have a page as their parent. -/
def children (t : PageTable) (id : Uuid) : List PageTreeRow :=
  t.rows.filter fun row => row.parentPageId = some id

/-- The first term of the `subtree` CTE: the children of the page, with their path. -/
def subtreeFirst (t : PageTable) (pageId : Uuid) : List (Uuid × List Uuid) :=
  match Keyed.find t pageId with
  | none => []
  | some moved => (t.children moved.id).map fun c => (c.id, moved.ancestorIds ++ [moved.id])

/-- The recursive term: the children of the rows found last, whose path goes on. -/
def subtreeStep (t : PageTable) (working : List (Uuid × List Uuid)) : List (Uuid × List Uuid) :=
  working.flatMap fun s => (t.children s.1).map fun p => (p.id, s.2 ++ [s.1])

/-- The evaluation of the recursive query, for a number of rounds after the first. -/
def subtreeFrom (t : PageTable) : ℕ → List (Uuid × List Uuid) → List (Uuid × List Uuid)
  | 0, working => working
  | n + 1, working => working ++ t.subtreeFrom n (t.subtreeStep working)

/-- The `subtree` CTE, whose depth stops at 128. -/
def subtree (t : PageTable) (pageId : Uuid) : List (Uuid × List Uuid) :=
  t.subtreeFrom 128 (t.subtreeFirst pageId)

/-- The row as the `UPDATE` leaves it. Of several rows of the CTE with one id it takes some
one. -/
def rewrite (found : List (Uuid × List Uuid)) (row : PageTreeRow) : PageTreeRow :=
  match found.find? fun s => s.1 = row.id with
  | some s => row.withAncestors s.2
  | none => row

/-- The `UPDATE`, for what the CTE found. -/
def rewriteAll (t : PageTable) (found : List (Uuid × List Uuid)) : PageTable :=
  Keyed.modify t (rewrite found) fun row => by
    rw [rewrite]
    split <;> rfl

/-- `cascadeAncestors`: the rows with the paths of everything under a page rewritten, and the
ids of those that changed. -/
def cascadeAncestors (t : PageTable) (pageId : Uuid) : PageTable × List Uuid :=
  let found := t.subtree pageId
  (t.rewriteAll found, (t.rows.filter fun row => rewrite found row ≠ row).map (·.id))

end PageTable

/-- The row that is written: what a conflict leaves as it is comes from the row there is. -/
def projectedRow (existing : Option PageTreeRow) (doc : ReadPage) (workspaceId : Uuid)
    (place : Place Uuid) : PageTreeRow where
  id := doc.id
  workspaceId := (existing.map (·.workspaceId)).getD workspaceId
  parentPageId := place.parent
  ancestorIds := place.ancestors
  restricted := (existing.map (·.restricted)).getD false
  idx := doc.idx
  kind := doc.kind
  collectionId := if doc.kind = .row then doc.collectionId else none
  archivedAt := doc.archivedAt

def PageTable.placeFor (t : PageTable) (doc : ReadPage) (workspaceId : Uuid) : Place Uuid :=
  let existingParentId := (Keyed.find t doc.id).bind (·.parentPageId)
  computeAncestors doc.id doc.parentPageId workspaceId existingParentId
    (doc.parentPageId.bind (Keyed.find t)) (existingParentId.bind (Keyed.find t))

/-- `materializeDocument`: the rows of `pages` after it, and the pages whose projection is
stale. -/
def materializeDocument (t : PageTable) (doc : ReadPage) (workspaceId : Uuid) :
    PageTable × List Uuid :=
  let existing := Keyed.find t doc.id
  let place := t.placeFor doc workspaceId
  let written : PageTable := Keyed.upsert t (projectedRow existing doc workspaceId place)
  if existing.any fun row => row.parentPageId ≠ place.parent then
    let out := written.cascadeAncestors doc.id
    (out.1, out.2.filter (· ≠ doc.id))
  else (written, [])

namespace PageTable

variable {t : PageTable} {a c : Uuid} {doc : ReadPage} {workspaceId : Uuid} {row : PageTreeRow}
  {old new : Place Uuid}

/-! ### The cascade -/

theorem mem_children_iff {w v : List Uuid} {s : Uuid} :
    (c, w) ∈ (t.children s).map (fun p => (p.id, v)) ↔
      (∃ r, t.places c = some r ∧ r.parent = some s) ∧ w = v := by
  simp only [children, List.mem_map, mem_filter, decide_eq_true_eq, Prod.mk.injEq]
  constructor
  · rintro ⟨row, ⟨hmem, hparent⟩, rfl, rfl⟩
    exact ⟨⟨_, places_of_find (Keyed.mem_rows_iff.mp hmem), hparent⟩, rfl⟩
  · rintro ⟨⟨r, hr, hparent⟩, rfl⟩
    obtain ⟨row, hrow, rfl⟩ := map_eq_some_iff.mp hr
    exact ⟨row, ⟨Keyed.mem_rows hrow, hparent⟩, id_of_find hrow, rfl⟩

theorem mem_subtreeFrom_iff {x : Uuid × List Uuid} {n : ℕ} {working : List (Uuid × List Uuid)} :
    x ∈ t.subtreeFrom n working ↔ ∃ k ≤ n, x ∈ t.subtreeStep^[k] working := by
  induction n generalizing working with
  | zero => simp [subtreeFrom]
  | succ n ih =>
    rw [subtreeFrom, mem_append, ih]
    constructor
    · rintro (h | ⟨k, hk, h⟩)
      · exact ⟨0, by omega, h⟩
      · exact ⟨k + 1, by omega, h⟩
    · rintro ⟨k, hk, h⟩
      cases k with
      | zero => exact .inl h
      | succ k => exact .inr ⟨k, by omega, h⟩

section Cascade

variable {T : Uuid → Option (Place Uuid)}

/-- **A round of the cascade** finds what was that far under the page, with the path it is to
have. -/
theorem mem_iterate_subtreeStep_iff (h : IsPathed T) (ha : T a = some old)
    (hnew : new.Agrees T) (hout : a ∉ new.ancestors)
    (ht : t.places = Function.update T a (some new)) {k : ℕ} {w : List Uuid} :
    (c, w) ∈ t.subtreeStep^[k] (t.subtreeFirst a) ↔
      ∃ q, T c = some q ∧ old.ancestors ++ [a] <+: q.ancestors ∧
        q.ancestors.length = (old.ancestors ++ [a]).length + k ∧
          w = new.ancestors ++ [a] ++ q.ancestors.drop (old.ancestors ++ [a]).length := by
  induction k generalizing c w with
  | zero =>
    obtain ⟨moved, hmoved, hplace⟩ : ∃ moved, Keyed.find t a = some moved ∧ moved.place = new := by
      have hself : t.places a = some new := by rw [ht, update_self]
      exact map_eq_some_iff.mp hself
    have hid : moved.id = a := id_of_find hmoved
    have hpath : moved.ancestorIds = new.ancestors := by rw [← hplace]; rfl
    rw [iterate_zero_apply, subtreeFirst, hmoved]
    simp only [hid, hpath]
    rw [mem_children_iff, ht, h.child_iff ha hnew hout ha (by simp)]
    constructor
    · rintro ⟨⟨q, hq, hsame⟩, rfl⟩
      exact ⟨q, hq, by rw [hsame], by rw [hsame, Nat.add_zero], by simp [hsame]⟩
    · rintro ⟨q, hq, hunder, hlength, rfl⟩
      have hsame : old.ancestors ++ [a] = q.ancestors := hunder.eq_of_length (by omega)
      exact ⟨⟨q, hq, hsame.symm⟩, by simp [← hsame]⟩
  | succ k ih =>
    rw [iterate_succ_apply', subtreeStep, mem_flatMap]
    constructor
    · rintro ⟨⟨s, v⟩, hs, hc⟩
      obtain ⟨r, hr, hunder, hlength, rfl⟩ := ih.mp hs
      rw [mem_children_iff, ht,
        h.child_iff ha hnew hout hr (mem_append_left _ (hunder.mem (by simp)))] at hc
      obtain ⟨⟨q, hq, hsame⟩, rfl⟩ := hc
      refine ⟨q, hq, hsame ▸ hunder.trans (prefix_append _ _), ?_, ?_⟩
      · rw [hsame, length_append, hlength, length_singleton]
        omega
      · rw [hsame, drop_append_of_le_length hunder.length_le, append_assoc]
    · rintro ⟨q, hq, hunder, hlength, rfl⟩
      -- the last ancestor is the parent, and is under the page itself
      obtain ⟨rest, hrest⟩ := hunder
      have hne : rest ≠ [] := by
        rintro rfl
        rw [append_nil] at hrest
        rw [← hrest] at hlength
        omega
      obtain ⟨front, s, rfl⟩ : ∃ front s, rest = front ++ [s] :=
        ⟨rest.dropLast, rest.getLast hne, (dropLast_append_getLast hne).symm⟩
      rw [← append_assoc] at hrest
      have hparent : q.parent = some s := h.parent_eq hq hrest.symm
      obtain ⟨r, hr⟩ : ∃ r, T s = some r := by
        rw [← ne_none_iff_exists']
        intro hnone
        have horphan := (h c q hq).orphan s hparent hnone
        rw [horphan] at hlength
        simp only [length_append, length_singleton] at hlength
        omega
      have hpath := (h c q hq).child s r hparent hr
      have hsame : old.ancestors ++ [a] ++ front = r.ancestors :=
        (append_inj' (hrest.trans hpath) rfl).1
      have habove : old.ancestors ++ [a] <+: r.ancestors := ⟨front, hsame⟩
      refine ⟨(s, new.ancestors ++ [a] ++ r.ancestors.drop (old.ancestors ++ [a]).length),
        ih.mpr ⟨r, hr, habove, ?_, rfl⟩, ?_⟩
      · rw [hpath, length_append, length_singleton] at hlength
        omega
      · rw [mem_children_iff, ht, h.child_iff ha hnew hout hr (by simp [← hsame])]
        refine ⟨⟨q, hq, hpath⟩, ?_⟩
        rw [hpath, drop_append_of_le_length habove.length_le]
        simp only [append_assoc]

theorem mem_subtree_iff (h : IsPathed T) (ha : T a = some old) (hnew : new.Agrees T)
    (hout : a ∉ new.ancestors) (ht : t.places = Function.update T a (some new))
    {w : List Uuid} :
    (c, w) ∈ t.subtree a ↔
      ∃ q, T c = some q ∧ old.ancestors ++ [a] <+: q.ancestors ∧
        q.ancestors.length ≤ (old.ancestors ++ [a]).length + 128 ∧
          w = new.ancestors ++ [a] ++ q.ancestors.drop (old.ancestors ++ [a]).length := by
  rw [subtree, mem_subtreeFrom_iff]
  constructor
  · rintro ⟨k, hk, hmem⟩
    obtain ⟨q, hq, hunder, hlength, rfl⟩ :=
      (mem_iterate_subtreeStep_iff h ha hnew hout ht).mp hmem
    exact ⟨q, hq, hunder, by omega, rfl⟩
  · rintro ⟨q, hq, hunder, hlength, rfl⟩
    have hle := hunder.length_le
    refine ⟨q.ancestors.length - (old.ancestors ++ [a]).length, by omega, ?_⟩
    exact (mem_iterate_subtreeStep_iff h ha hnew hout ht).mpr ⟨q, hq, hunder, by omega, rfl⟩

/-- **The cascade**, after a page was given another place: the table with the page hung there,
as long as nothing is too far under it. -/
theorem places_cascadeAncestors (h : IsPathed T) (ha : T a = some old) (hnew : new.Agrees T)
    (hout : a ∉ new.ancestors) (ht : t.places = Function.update T a (some new))
    (hdeep : ∀ c q, T c = some q → old.ancestors ++ [a] <+: q.ancestors →
      q.ancestors.length ≤ (old.ancestors ++ [a]).length + 128) :
    places (t.cascadeAncestors a).1 = rehung T a old new := by
  have hsub : ∀ c w, (c, w) ∈ t.subtree a ↔ ∃ q, T c = some q ∧
      old.ancestors ++ [a] <+: q.ancestors ∧
        q.ancestors.length ≤ (old.ancestors ++ [a]).length + 128 ∧
          w = new.ancestors ++ [a] ++ q.ancestors.drop (old.ancestors ++ [a]).length :=
    fun c w => mem_subtree_iff h ha hnew hout ht
  funext c
  have hplaces : places (t.cascadeAncestors a).1 c =
      (Keyed.find t c).map fun row => (rewrite (t.subtree a) row).place := by
    rw [places, cascadeAncestors, rewriteAll, Keyed.find_modify, Option.map_map]
    rfl
  rw [hplaces]
  by_cases hca : c = a
  · -- the page itself is not under it
    subst hca
    have hself : t.places c = some new := by rw [ht, update_self]
    obtain ⟨row, hrow, rfl⟩ := map_eq_some_iff.mp hself
    have hnone : (t.subtree c).find? (fun s => s.1 = row.id) = none := by
      rw [List.find?_eq_none]
      rintro ⟨id, w⟩ hmem heq
      obtain rfl : id = c := (of_decide_eq_true heq).trans (id_of_find hrow)
      obtain ⟨q, hq, hunder, -⟩ := (hsub id w).mp hmem
      exact h.not_mem_ancestors hq (hunder.mem (by simp))
    simp [hrow, rewrite, hnone, rehung]
  · have hother : t.places c = T c := by rw [ht, update_of_ne hca]
    rw [rehung, update_of_ne hca]
    cases hq : T c with
    | none =>
      rw [hq] at hother
      rw [places_eq_none.mp hother]
      rfl
    | some q =>
      rw [hq] at hother
      obtain ⟨row, hrow, rfl⟩ := map_eq_some_iff.mp hother
      have hid : row.id = c := id_of_find hrow
      rw [hrow, map_some, map_some, Option.some.injEq, rewrite, hid]
      cases hfound : (t.subtree a).find? (fun s => s.1 = c) with
      | some s =>
        obtain ⟨id, w⟩ := s
        obtain rfl : id = c := by simpa using List.find?_some hfound
        obtain ⟨q, hq', hunder, -, rfl⟩ := (hsub id w).mp (List.mem_of_find?_eq_some hfound)
        obtain rfl := some.inj (hq.symm.trans hq')
        rw [Place.under, if_pos hunder]
        rfl
      | none =>
        have hnot : ¬ old.ancestors ++ [a] <+: row.place.ancestors := by
          intro hunder
          rw [List.find?_eq_none] at hfound
          exact hfound (c, _) ((hsub c _).mpr ⟨_, hq, hunder, hdeep c _ hq hunder, rfl⟩) (by simp)
        rw [Place.under, if_neg hnot]

end Cascade

/-! ### The place a page is given -/

/-- The parent a document asks for **is refused**: it is in another workspace, or it would put
the page under itself. -/
def Refuses (t : PageTable) (doc : ReadPage) (workspaceId : Uuid) : Prop :=
  ∃ parentId ∈ doc.parentPageId, ∃ row ∈ Keyed.find t parentId,
    row.workspaceId ≠ workspaceId ∨ doc.id ∈ row.ancestorIds ++ [parentId]

instance (t : PageTable) (doc : ReadPage) (workspaceId : Uuid) :
    Decidable (t.Refuses doc workspaceId) :=
  inferInstanceAs (Decidable (∃ parentId ∈ doc.parentPageId, _))

/-- The parent a page is to have: the one asked for, or else the one its row has. -/
def parentFor (t : PageTable) (doc : ReadPage) (workspaceId : Uuid) : Option Uuid :=
  if t.Refuses doc workspaceId then (Keyed.find t doc.id).bind (·.parentPageId)
  else doc.parentPageId

/-- The path of a page **is cut**: the parent it is to have has 128 ancestors or more. -/
def IsCut (t : PageTable) (doc : ReadPage) (workspaceId : Uuid) : Prop :=
  ∃ parentId ∈ t.parentFor doc workspaceId, ∃ row ∈ Keyed.find t parentId,
    128 ≤ row.ancestorIds.length

instance (t : PageTable) (doc : ReadPage) (workspaceId : Uuid) :
    Decidable (t.IsCut doc workspaceId) :=
  inferInstanceAs (Decidable (∃ parentId ∈ t.parentFor doc workspaceId, _))

theorem lastIds_eq {path : List Uuid} (h : path.length ≤ 128) : lastIds path = path := by
  rw [lastIds, Nat.sub_eq_zero_of_le h, drop_zero]

theorem mem_of_mem_lastIds {path : List Uuid} (h : c ∈ lastIds path) : c ∈ path := by
  rw [lastIds] at h
  exact mem_of_mem_drop h

theorem keepExisting_cases (pageId : Uuid) (parentId : Option Uuid) :
    keepExisting pageId parentId (parentId.bind (Keyed.find t)) = ⟨none, []⟩ ∨
      ∃ id row, parentId = some id ∧ Keyed.find t id = some row ∧
        pageId ∉ row.ancestorIds ++ [id] ∧
          keepExisting pageId parentId (parentId.bind (Keyed.find t)) =
            ⟨some id, lastIds (row.ancestorIds ++ [id])⟩ := by
  cases parentId with
  | none => exact .inl rfl
  | some id =>
    cases hrow : Keyed.find t id with
    | none => exact .inl (by simp [keepExisting, hrow])
    | some row =>
      by_cases hmem : pageId ∈ row.ancestorIds ++ [id]
      · exact .inl (by simp only [keepExisting, bind_some, hrow, if_pos hmem])
      · refine .inr ⟨id, row, rfl, hrow, hmem, ?_⟩
        simp only [keepExisting, bind_some, hrow, if_neg hmem]

theorem placeFor_of_refuses (h : t.Refuses doc workspaceId) :
    t.placeFor doc workspaceId = keepExisting doc.id (t.parentFor doc workspaceId)
      ((t.parentFor doc workspaceId).bind (Keyed.find t)) := by
  rw [parentFor, if_pos h, placeFor]
  obtain ⟨id, hid, row, hrow, hwhy⟩ := h
  rw [mem_def] at hid hrow
  simp only [computeAncestors, hid, bind_some, hrow]
  split
  · rfl
  · rename_i hworkspace
    rw [if_pos (hwhy.resolve_left hworkspace)]

theorem placeFor_of_not_refuses {id : Uuid} (h : ¬ t.Refuses doc workspaceId)
    (hid : doc.parentPageId = some id) (hrow : Keyed.find t id = some row) :
    doc.id ∉ row.ancestorIds ++ [id] ∧
      t.placeFor doc workspaceId = ⟨some id, lastIds (row.ancestorIds ++ [id])⟩ := by
  have hwhy : ¬ (row.workspaceId ≠ workspaceId ∨ doc.id ∈ row.ancestorIds ++ [id]) :=
    fun hwhy => h ⟨id, hid, row, hrow, hwhy⟩
  rw [not_or, not_not] at hwhy
  refine ⟨hwhy.2, ?_⟩
  simp only [placeFor, computeAncestors, hid, bind_some, hrow, hwhy.1, ne_eq,
    not_true_eq_false, if_false, hwhy.2]
  split
  · rfl
  · rename_i hlength
    rw [lastIds_eq (not_lt.mp hlength)]

theorem placeFor_of_parentFor {id : Uuid} (hid : t.parentFor doc workspaceId = some id)
    (hrow : Keyed.find t id = some row) (hnot : doc.id ∉ row.ancestorIds ++ [id]) :
    t.placeFor doc workspaceId = ⟨some id, lastIds (row.ancestorIds ++ [id])⟩ := by
  by_cases hrefuses : t.Refuses doc workspaceId
  · rw [placeFor_of_refuses hrefuses, hid]
    simp only [keepExisting, bind_some, hrow, if_neg hnot]
  · rw [parentFor, if_neg hrefuses] at hid
    exact (placeFor_of_not_refuses hrefuses hid hrow).2

theorem placeFor_of_parentFor_none (h : t.parentFor doc workspaceId = none) :
    t.placeFor doc workspaceId = ⟨none, []⟩ := by
  by_cases hrefuses : t.Refuses doc workspaceId
  · rw [placeFor_of_refuses hrefuses, h]
    rfl
  · rw [parentFor, if_neg hrefuses] at h
    simp [placeFor, computeAncestors, h]

/-- **What a page is given**: no parent; the one asked for, which is not there; or the one it
is to have, which is not under it. -/
theorem placeFor_cases (t : PageTable) (doc : ReadPage) (workspaceId : Uuid) :
    t.placeFor doc workspaceId = ⟨none, []⟩ ∨
      (∃ id, t.parentFor doc workspaceId = some id ∧ doc.parentPageId = some id ∧
        Keyed.find t id = none ∧ t.placeFor doc workspaceId = ⟨some id, [id]⟩) ∨
      ∃ id row, t.parentFor doc workspaceId = some id ∧ Keyed.find t id = some row ∧
        doc.id ∉ row.ancestorIds ++ [id] ∧
          t.placeFor doc workspaceId = ⟨some id, lastIds (row.ancestorIds ++ [id])⟩ := by
  by_cases hrefuses : t.Refuses doc workspaceId
  · -- refused, and the existing parent is kept
    rw [placeFor_of_refuses hrefuses]
    rcases keepExisting_cases doc.id (t.parentFor doc workspaceId) with
      hkept | ⟨kept, row, hid, hrow, hmem, hkept⟩
    · exact .inl hkept
    · exact .inr (.inr ⟨kept, row, hid, hrow, hmem, hkept⟩)
  · have hparentFor : t.parentFor doc workspaceId = doc.parentPageId := if_neg hrefuses
    cases hparent : doc.parentPageId with
    | none => exact .inl (placeFor_of_parentFor_none (hparentFor.trans hparent))
    | some id =>
      rw [hparent] at hparentFor
      cases hrow : Keyed.find t id with
      | none =>
        refine .inr (.inl ⟨id, hparentFor, rfl, hrow, ?_⟩)
        simp [placeFor, computeAncestors, hparent, hrow]
      | some row =>
        obtain ⟨hnot, hplace⟩ := placeFor_of_not_refuses hrefuses hparent hrow
        exact .inr (.inr ⟨id, row, hparentFor, hrow, hnot, hplace⟩)

theorem parentFor_of_placeFor {parentId : Uuid}
    (h : (t.placeFor doc workspaceId).parent = some parentId) :
    t.parentFor doc workspaceId = some parentId := by
  rcases placeFor_cases t doc workspaceId with
    hplace | ⟨id, hid, -, -, hplace⟩ | ⟨id, _, hid, -, -, hplace⟩
  · simp [hplace] at h
  · rw [hplace] at h
    exact hid.trans h
  · rw [hplace] at h
    exact hid.trans h

/-- **The place a page is given agrees with the table**, where its path is not cut. -/
theorem placeFor_agrees (hcut : ¬ t.IsCut doc workspaceId) :
    (t.placeFor doc workspaceId).Agrees t.places := by
  rcases placeFor_cases t doc workspaceId with
    hplace | ⟨id, -, -, hrow, hplace⟩ | ⟨id, row, hparent, hrow, -, hplace⟩
  · rw [hplace]
    exact ⟨fun _ => rfl, by simp, by simp⟩
  · rw [hplace]
    refine ⟨by simp, ?_, by simp⟩
    rintro b q ⟨⟩ hq
    rw [places_eq_none.mpr hrow] at hq
    simp at hq
  · have hshort : (row.ancestorIds ++ [id]).length ≤ 128 := by
      have hlt : ¬ 128 ≤ row.ancestorIds.length := fun hle =>
        hcut ⟨id, mem_def.mpr hparent, row, mem_def.mpr hrow, hle⟩
      rw [length_append, length_singleton]
      omega
    rw [hplace, lastIds_eq hshort]
    refine ⟨by simp, ?_, ?_⟩
    · rintro b q ⟨⟩ hq
      rw [places_of_find hrow, Option.some.injEq] at hq
      rw [← hq]
    · rintro b ⟨⟩ hb
      rw [places_of_find hrow] at hb
      simp at hb

theorem not_mem_placeFor (hself : doc.parentPageId = some doc.id → Keyed.find t doc.id ≠ none) :
    doc.id ∉ (t.placeFor doc workspaceId).ancestors := by
  rcases placeFor_cases t doc workspaceId with
    hplace | ⟨id, -, hparent, hrow, hplace⟩ | ⟨id, row, -, -, hnot, hplace⟩
  · simp [hplace]
  · rw [hplace, mem_singleton]
    rintro rfl
    exact hself hparent hrow
  · rw [hplace]
    intro hmem
    dsimp only at hmem
    exact hnot (mem_of_mem_lastIds hmem)

/-! ### The projection -/

theorem rewrite_nil (row : PageTreeRow) : rewrite [] row = row := rfl

theorem withAncestors_rewrite (found : List (Uuid × List Uuid)) (row : PageTreeRow)
    (ancestorIds : List Uuid) :
    (rewrite found row).withAncestors ancestorIds = row.withAncestors ancestorIds := by
  rw [rewrite]
  split <;> rfl

@[simp] theorem parentPageId_rewrite (found : List (Uuid × List Uuid)) (row : PageTreeRow) :
    (rewrite found row).parentPageId = row.parentPageId :=
  congrArg (·.parentPageId) (withAncestors_rewrite found row [])

theorem mem_of_mem_subtree {pageId : Uuid} {s : Uuid × List Uuid} (hs : s ∈ t.subtree pageId) :
    pageId ∈ s.2 := by
  rw [subtree, mem_subtreeFrom_iff] at hs
  obtain ⟨k, -, hs⟩ := hs
  induction k generalizing s with
  | zero =>
    rw [iterate_zero_apply, subtreeFirst] at hs
    split at hs
    · simp at hs
    · rename_i moved hmoved
      obtain ⟨c, -, rfl⟩ := List.mem_map.mp hs
      simp [id_of_find hmoved]
  | succ k ih =>
    rw [iterate_succ_apply', subtreeStep, mem_flatMap] at hs
    obtain ⟨above, habove, hs⟩ := hs
    obtain ⟨c, -, rfl⟩ := List.mem_map.mp hs
    exact mem_append_left _ (ih habove)

/-- **The rows after a projection**: the row of the page is written and the others stay, but
for the paths, those that are written leading through the page. -/
theorem find_materializeDocument (t : PageTable) (doc : ReadPage) (workspaceId : Uuid) :
    ∃ found, (∀ s ∈ found, doc.id ∈ s.2) ∧
      ∀ pageId, Keyed.find (materializeDocument t doc workspaceId).1 pageId =
        (if doc.id = pageId then
          some (projectedRow (Keyed.find t doc.id) doc workspaceId (t.placeFor doc workspaceId))
        else Keyed.find t pageId).map (rewrite found) := by
  let written : PageTable := Keyed.upsert t
    (projectedRow (Keyed.find t doc.id) doc workspaceId (t.placeFor doc workspaceId))
  have hwritten : ∀ pageId, Keyed.find written pageId = if doc.id = pageId then
      some (projectedRow (Keyed.find t doc.id) doc workspaceId (t.placeFor doc workspaceId))
      else Keyed.find t pageId := fun pageId => Keyed.find_upsert
  rw [materializeDocument]
  simp only
  split
  · refine ⟨subtree written doc.id, fun s hs => mem_of_mem_subtree hs, fun pageId => ?_⟩
    rw [← hwritten, cascadeAncestors, rewriteAll, Keyed.find_modify]
  · refine ⟨[], by simp, fun pageId => ?_⟩
    rw [← hwritten, show rewrite [] = id from funext rewrite_nil, Option.map_id_fun]
    rfl

/-- **What a cascade leaves alone**: ids none of which has its parent outside, or in the page. -/
theorem not_mem_subtree {out : Uuid → Prop} {pageId : Uuid}
    (hout : ∀ row ∈ t.rows, out row.id → ∀ p ∈ row.parentPageId, p ≠ pageId ∧ out p)
    {s : Uuid × List Uuid} (hs : s ∈ t.subtree pageId) : ¬ out s.1 := by
  rw [subtree, mem_subtreeFrom_iff] at hs
  obtain ⟨k, -, hs⟩ := hs
  induction k generalizing s with
  | zero =>
    rw [iterate_zero_apply, subtreeFirst] at hs
    split at hs
    · simp at hs
    · rename_i moved hmoved
      obtain ⟨c, hc, rfl⟩ := List.mem_map.mp hs
      obtain ⟨hmem, hparent⟩ := mem_filter.mp hc
      rw [decide_eq_true_eq, id_of_find hmoved] at hparent
      exact fun h => (hout c hmem h _ hparent).1 rfl
  | succ k ih =>
    rw [iterate_succ_apply', subtreeStep, mem_flatMap] at hs
    obtain ⟨above, habove, hs⟩ := hs
    obtain ⟨c, hc, rfl⟩ := List.mem_map.mp hs
    obtain ⟨hmem, hparent⟩ := mem_filter.mp hc
    exact fun h => ih habove (hout c hmem h _ (of_decide_eq_true hparent)).2

theorem find_materializeDocument_of_out {out : Uuid → Prop}
    (hout : ∀ row ∈ t.rows, out row.id → row.id ≠ doc.id →
      ∀ p ∈ row.parentPageId, p ≠ doc.id ∧ out p)
    (hself : out doc.id → ∀ p ∈ (t.placeFor doc workspaceId).parent, p ≠ doc.id ∧ out p)
    {id : Uuid} (hid : out id) :
    Keyed.find (materializeDocument t doc workspaceId).1 id =
      if doc.id = id then
        some (projectedRow (Keyed.find t doc.id) doc workspaceId (t.placeFor doc workspaceId))
      else Keyed.find t id := by
  let written : PageTable := Keyed.upsert t
    (projectedRow (Keyed.find t doc.id) doc workspaceId (t.placeFor doc workspaceId))
  have hwritten : ∀ pageId, Keyed.find written pageId = if doc.id = pageId then
      some (projectedRow (Keyed.find t doc.id) doc workspaceId (t.placeFor doc workspaceId))
      else Keyed.find t pageId := fun pageId => Keyed.find_upsert
  have hleft : ∀ s ∈ written.subtree doc.id, ¬ out s.1 := by
    intro s hs
    refine not_mem_subtree (fun row hrow => ?_) hs
    rw [Keyed.mem_rows_iff, hwritten] at hrow
    split at hrow
    · rw [← some.inj hrow]
      exact hself
    · rename_i hne
      exact fun h => hout row (Keyed.mem_rows hrow) h (Ne.symm hne)
  rw [← hwritten, materializeDocument]
  simp only
  split
  · rw [cascadeAncestors, rewriteAll, Keyed.find_modify]
    cases hrow : Keyed.find written id with
    | none => rfl
    | some row =>
      have hnone : (written.subtree doc.id).find? (fun s => s.1 = row.id) = none := by
        rw [List.find?_eq_none]
        intro s hs heq
        refine hleft s hs ?_
        rwa [of_decide_eq_true heq, id_of_find hrow]
      rw [map_some, rewrite, hnone]
  · rfl

/-- A page is moved with **something too far under it** for the cascade: more than 129 levels. -/
def IsDeep (t : PageTable) (doc : ReadPage) (workspaceId : Uuid) : Prop :=
  ∃ row ∈ Keyed.find t doc.id, row.parentPageId ≠ (t.placeFor doc workspaceId).parent ∧
    ∃ below ∈ t.rows, row.path <+: below.ancestorIds ∧
      row.path.length + 128 < below.ancestorIds.length

instance (t : PageTable) (doc : ReadPage) (workspaceId : Uuid) :
    Decidable (t.IsDeep doc workspaceId) :=
  inferInstanceAs (Decidable (∃ row ∈ Keyed.find t doc.id, _))

theorem places_materializeDocument_of_none (hrow : Keyed.find t doc.id = none) :
    places (materializeDocument t doc workspaceId).1 =
      Function.update t.places doc.id (some (t.placeFor doc workspaceId)) := by
  simp [materializeDocument, hrow, places_upsert, projectedRow]

/-- **A page that has a row**: it is hung where it is given a place, with all that is under it,
as long as nothing is too far under it. -/
theorem places_materializeDocument_of_some (h : IsPathed t.places)
    (hrow : Keyed.find t doc.id = some row) (hcut : ¬ t.IsCut doc workspaceId)
    (hdeep : ¬ t.IsDeep doc workspaceId) :
    places (materializeDocument t doc workspaceId).1 =
      rehung t.places doc.id row.place (t.placeFor doc workspaceId) := by
  have hold : t.places doc.id = some row.place := places_of_find hrow
  have hagrees := t.placeFor_agrees hcut
  have hout : doc.id ∉ (t.placeFor doc workspaceId).ancestors :=
    t.not_mem_placeFor fun _ => by simp [hrow]
  have hwritten : places (Keyed.upsert t (projectedRow (some row) doc workspaceId
      (t.placeFor doc workspaceId))) =
        Function.update t.places doc.id (some (t.placeFor doc workspaceId)) := places_upsert
  rw [materializeDocument, hrow]
  simp only [any_some]
  split
  · rename_i hchanges
    refine places_cascadeAncestors h hold hagrees hout hwritten fun c q hq hunder => ?_
    obtain ⟨below, hbelow, rfl⟩ := map_eq_some_iff.mp hq
    have hpath : row.path = row.place.ancestors ++ [doc.id] := by
      rw [PageRow.path, id_of_find hrow]
      rfl
    rw [← hpath] at hunder ⊢
    refine not_lt.mp fun hlt => hdeep ⟨row, hrow, ?_, below, Keyed.mem_rows hbelow, hunder, hlt⟩
    simpa using hchanges
  · -- the parent is as it was, and so is the path
    rename_i hsame
    rw [decide_eq_true_eq, not_not] at hsame
    have hplace : row.place = t.placeFor doc workspaceId :=
      (h doc.id row.place hold).eq_of_parent hagrees hsame
    rw [hwritten, ← hplace, rehung_self hold, ← hold, update_eq_self]

/-- **The projection keeps the paths right**, where the path is not cut, nothing is too far
under the page, and no row waits for a page that comes in under another. -/
theorem isPathed_materializeDocument (h : IsPathed t.places) (hcut : ¬ t.IsCut doc workspaceId)
    (hdeep : ¬ t.IsDeep doc workspaceId)
    (hself : doc.parentPageId = some doc.id → Keyed.find t doc.id ≠ none)
    (hwait : Keyed.find t doc.id = none → ∀ below ∈ t.rows, below.parentPageId = some doc.id →
      t.parentFor doc workspaceId = none) :
    IsPathed (places (materializeDocument t doc workspaceId).1) := by
  have hagrees := t.placeFor_agrees hcut
  have hout : doc.id ∉ (t.placeFor doc workspaceId).ancestors := t.not_mem_placeFor hself
  cases hrow : Keyed.find t doc.id with
  | some row =>
    rw [places_materializeDocument_of_some h hrow hcut hdeep]
    exact h.rehung (places_of_find hrow) hagrees hout
  | none =>
    rw [places_materializeDocument_of_none hrow]
    refine h.insert (places_eq_none.mpr hrow) hagrees hout fun c q hq hparent => ?_
    obtain ⟨below, hbelow, rfl⟩ := map_eq_some_iff.mp hq
    have hnone := hwait hrow below (Keyed.mem_rows hbelow) hparent
    refine hagrees.root (eq_none_iff_forall_ne_some.mpr fun id hid => ?_)
    simp [parentFor_of_placeFor hid] at hnone

end PageTable

end Sone
