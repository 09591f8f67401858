import Sone.Order.KeysBetween
import Sone.Order.Stable
import Sone.Pages.Moves
import Mathlib.Data.String.Basic

/-!
# The place of a moved entry

`moveEntry` sorts the new siblings by order key and id, and makes a key for the moved entry of the
keys of its two neighbours: the named sibling and the next one, the first, or the last. Two
siblings may have one key, where two clients inserted into the same gap, and are then in the order
of their ids. `placesMoved_iff` says when the entry comes where it was put: the neighbours have
keys that are well-formed and not equal, and there is room below the first. Between two siblings
with one key `generateKeyBetween` throws.
-/

namespace Sone

open List Option

/-- Moves with the keys of `generateKeyBetween`. -/
def keyMoves : MoveEnv where
  generateKeyBetween before after :=
    (FractionalIndex.generateKeyBetween (before.map String.toList)
      (after.map String.toList)).toOption.map String.ofList

namespace MoveInput

variable (input : MoveInput) (t : PageTable)

/-- **The place a move asks for**, as the siblings before it and those after it: directly after
the named sibling, first, or last where there is no opinion. -/
structure IsPlace (front rest : List PageTreeRow) : Prop where
  siblings : input.siblings t = front ++ rest
  asked : match input.afterPageId with
    | none => rest = []
    | some none => front = []
    | some (some after) => front.getLast?.map (·.id) = some after

/-- **The entry comes where it was put**: the move computes a key, and with it the siblings and the
entry are sorted to the siblings before the place, the entry, and the siblings after it. -/
def PlacesMoved (front rest : List PageTreeRow) : Prop :=
  ∃ key, input.orderKey t keyMoves = .ok (some key) ∧ ∀ moved : PageTreeRow, moved.idx = key →
    (moved :: input.siblings t).mergeSort PageTreeRow.comesBefore = front ++ moved :: rest

/-- **There is room** between two neighbours: their keys are well-formed and not equal, and the
first place is not below the smallest key. -/
structure HasRoom (front rest : List PageTreeRow) : Prop where
  before : ∀ row ∈ front.getLast?, FractionalIndex.validate row.idx.toList = .ok ()
  after : ∀ row ∈ rest.head?, FractionalIndex.validate row.idx.toList = .ok ()
  differ : ∀ row ∈ front.getLast?, ∀ next ∈ rest.head?, row.idx ≠ next.idx
  above : front = [] → ∀ row ∈ rest.head?, row.idx.toList ≠ FractionalIndex.smallestInteger

end MoveInput

namespace PageTreeRow

variable {a b c : PageTreeRow}

theorem comesBefore_iff :
    a.comesBefore b = true ↔ a.idx < b.idx ∨ (a.idx = b.idx ∧ a.id ≤ b.id) := by
  rw [comesBefore, decide_eq_true_iff]

theorem comesBefore_trans (a b c : PageTreeRow) (hab : a.comesBefore b = true)
    (hbc : b.comesBefore c = true) : a.comesBefore c = true := by
  rw [comesBefore_iff] at hab hbc ⊢
  rcases hab with hab | ⟨hab, hid⟩ <;> rcases hbc with hbc | ⟨hbc, hid'⟩
  · exact .inl (hab.trans hbc)
  · exact .inl (hbc ▸ hab)
  · exact .inl (hab ▸ hbc)
  · exact .inr ⟨hab.trans hbc, hid.trans hid'⟩

theorem comesBefore_total (a b : PageTreeRow) : (a.comesBefore b || b.comesBefore a) = true := by
  rw [Bool.or_eq_true, comesBefore_iff, comesBefore_iff]
  rcases lt_trichotomy a.idx b.idx with hlt | heq | hgt
  · exact .inl (.inl hlt)
  · exact (le_total a.id b.id).imp (fun h => .inr ⟨heq, h⟩) fun h => .inr ⟨heq.symm, h⟩
  · exact .inr (.inl hgt)

theorem idx_le_of_comesBefore (h : a.comesBefore b = true) : a.idx ≤ b.idx := by
  rcases comesBefore_iff.mp h with hlt | ⟨heq, -⟩
  · exact hlt.le
  · exact heq.le

theorem comesBefore_of_lt (h : a.idx < b.idx) : a.comesBefore b = true :=
  comesBefore_iff.mpr (.inl h)

theorem comesBefore_eq_false_of_lt (h : b.idx < a.idx) : a.comesBefore b = false :=
  Bool.eq_false_of_not_eq_true fun hle => h.not_ge (idx_le_of_comesBefore hle)

end PageTreeRow

namespace MoveInput

variable {input : MoveInput} {t : PageTable} {front rest : List PageTreeRow}

theorem pairwise_siblings : (input.siblings t).Pairwise fun a b => a.comesBefore b = true :=
  pairwise_mergeSort PageTreeRow.comesBefore_trans PageTreeRow.comesBefore_total _

theorem nodup_siblings : ((input.siblings t).map (·.id)).Nodup := by
  have hperm := (mergeSort_perm (t.rows.filter fun row =>
    row.workspaceId = input.workspaceId ∧ row.parentPageId = input.parentPageId ∧
      row.id ≠ input.pageId) PageTreeRow.comesBefore).map (·.id)
  exact hperm.nodup_iff.mpr (t.nodup.sublist (filter_sublist.map _))

/-- **The key of a move** is made of the keys of the two neighbours. -/
theorem orderKey_eq (env : MoveEnv) (h : input.IsPlace t front rest) :
    input.orderKey t env = .ok (env.generateKeyBetween (front.getLast?.map (·.idx))
      (rest.head?.map (·.idx))) := by
  obtain ⟨hsiblings, hasked⟩ := h
  rw [MoveInput.orderKey]
  simp only [hsiblings]
  split at hasked
  · rename_i hlast
    simp only [hlast, hasked, append_nil, List.head?_nil, map_none]
  · rename_i hfirst
    simp only [hfirst, hasked, nil_append, List.getLast?_nil, map_none]
  · rename_i after hafter
    obtain ⟨found, hfound, rfl⟩ := map_eq_some_iff.mp hasked
    obtain ⟨init, rfl⟩ := List.getLast?_eq_some_iff.mp hfound
    have hnodup := @nodup_siblings input t
    rw [hsiblings, append_assoc, map_append, nodup_append] at hnodup
    have hdrop : ((init ++ [found]) ++ rest).dropWhile (fun row => decide (row.id ≠ found.id)) =
        found :: rest := by
      rw [append_assoc, dropWhile_append_of_pos, singleton_append,
        dropWhile_cons_of_neg (by simp)]
      intro row hrow
      exact decide_eq_true (hnodup.2.2 _ (List.mem_map_of_mem hrow) found.id (by simp))
    simp only [hafter, hdrop, List.getLast?_append, List.getLast?_singleton, some_or,
      map_some]

theorem idx_le_of_isPlace (h : input.IsPlace t front rest) {row next : PageTreeRow}
    (hrow : row ∈ front) (hnext : next ∈ rest) : row.idx ≤ next.idx := by
  have hsorted := @pairwise_siblings input t
  rw [h.siblings, pairwise_append] at hsorted
  exact PageTreeRow.idx_le_of_comesBefore (hsorted.2.2 row hrow next hnext)

theorem idx_le_getLast (h : input.IsPlace t front rest) {row last : PageTreeRow}
    (hrow : row ∈ front) (hlast : front.getLast? = some last) : row.idx ≤ last.idx := by
  have hsorted := @pairwise_siblings input t
  rw [h.siblings, pairwise_append] at hsorted
  obtain ⟨init, rfl⟩ := List.getLast?_eq_some_iff.mp hlast
  rcases mem_append.mp hrow with hrow | hrow
  · exact PageTreeRow.idx_le_of_comesBefore
      ((pairwise_append.mp hsorted.1).2.2 row hrow last mem_cons_self)
  · rw [mem_singleton.mp hrow]

theorem head_le_idx (h : input.IsPlace t front rest) {row first : PageTreeRow}
    (hrow : row ∈ rest) (hfirst : rest.head? = some first) : first.idx ≤ row.idx := by
  have hsorted := @pairwise_siblings input t
  rw [h.siblings, pairwise_append] at hsorted
  obtain ⟨tail, rfl⟩ := List.head?_eq_some_iff.mp hfirst
  rcases mem_cons.mp hrow with rfl | hrow
  · exact le_rfl
  · exact PageTreeRow.idx_le_of_comesBefore ((pairwise_cons.mp hsorted.2.1).1 row hrow)

/-- **A key between the neighbours** sorts the entry to its place. -/
theorem mergeSort_moved (h : input.IsPlace t front rest) {moved : PageTreeRow}
    (habove : ∀ row ∈ front.getLast?, row.idx < moved.idx)
    (hbelow : ∀ row ∈ rest.head?, moved.idx < row.idx) :
    (moved :: input.siblings t).mergeSort PageTreeRow.comesBefore = front ++ moved :: rest := by
  have hsorted := @pairwise_siblings input t
  rw [h.siblings] at hsorted ⊢
  refine mergeSort_cons_eq PageTreeRow.comesBefore_trans PageTreeRow.comesBefore_total hsorted
    (fun row hrow => ?_) fun row hrow => ?_
  · obtain ⟨last, hlast⟩ := ne_none_iff_exists'.mp
      (List.getLast?_eq_none_iff.not.mpr (ne_nil_of_mem hrow))
    exact PageTreeRow.comesBefore_eq_false_of_lt
      ((idx_le_getLast h hrow hlast).trans_lt (habove last hlast))
  · obtain ⟨first, hfirst⟩ := ne_none_iff_exists'.mp
      (List.head?_eq_none_iff.not.mpr (ne_nil_of_mem hrow))
    exact PageTreeRow.comesBefore_of_lt
      ((hbelow first hfirst).trans_le (head_le_idx h hrow hfirst))

/-- The move computes a key exactly where `generateKeyBetween` does. -/
theorem orderKey_keyMoves_iff (h : input.IsPlace t front rest) {key : String} :
    input.orderKey t keyMoves = .ok (some key) ↔
      FractionalIndex.generateKeyBetween (front.getLast?.map (·.idx.toList))
        (rest.head?.map (·.idx.toList)) = .ok key.toList := by
  rw [orderKey_eq keyMoves h, keyMoves]
  simp only [Option.map_map, Function.comp_def, Except.ok.injEq]
  cases FractionalIndex.generateKeyBetween (front.getLast?.map (·.idx.toList))
      (rest.head?.map (·.idx.toList)) with
  | error failure => simp [Except.toOption]
  | ok found =>
    simp only [Except.toOption, map_some, Option.some.injEq, Except.ok.injEq]
    exact ⟨fun heq => by rw [← heq, String.toList_ofList],
      fun heq => by rw [heq, String.ofList_toList]⟩

/-- **A moved entry comes where it was put** exactly where there is room: where the neighbours of
the place have well-formed keys that differ, and the first place is not below the smallest key. -/
theorem placesMoved_iff (h : input.IsPlace t front rest) :
    input.PlacesMoved t front rest ↔ HasRoom front rest := by
  constructor
  · rintro ⟨key, hkey, -⟩
    have hgenerated := (orderKey_keyMoves_iff h).mp hkey
    obtain ⟨hbefore, hafter, hlt⟩ := FractionalIndex.bounds_of_generateKeyBetween hgenerated
    refine ⟨fun row hrow => hbefore _ (Option.mem_map_of_mem _ hrow),
      fun row hrow => hafter _ (Option.mem_map_of_mem _ hrow), fun row hrow next hnext heq => ?_,
      fun hfirst row hrow hsmallest => ?_⟩
    · have hless := hlt _ (Option.mem_map_of_mem _ hrow) _ (Option.mem_map_of_mem _ hnext)
      simp [heq] at hless
    · have hhead : rest.head? = some row := hrow
      rw [hfirst, hhead, map_some, hsmallest] at hgenerated
      simp [FractionalIndex.generateKeyBefore_smallest] at hgenerated
  · intro hroom
    obtain ⟨key, hkey, -, habove, hbelow⟩ := FractionalIndex.exists_key
      (front.getLast?.map (·.idx.toList)) (rest.head?.map (·.idx.toList))
      (by
        intro b hb
        obtain ⟨row, hrow, rfl⟩ := Option.mem_map.mp hb
        exact hroom.before row hrow)
      (by
        intro a ha
        obtain ⟨row, hrow, rfl⟩ := Option.mem_map.mp ha
        exact hroom.after row hrow)
      (by
        intro b hb a ha
        obtain ⟨row, hrow, rfl⟩ := Option.mem_map.mp hb
        obtain ⟨next, hnext, rfl⟩ := Option.mem_map.mp ha
        exact String.lt_iff_toList_lt.mp (lt_of_le_of_ne
          (idx_le_of_isPlace h (mem_of_getLast? hrow) (mem_of_mem_head? hnext))
          (hroom.differ row hrow next hnext)))
      (by
        rintro ⟨hnone, hsmallest⟩
        obtain ⟨row, hrow, hkey⟩ := map_eq_some_iff.mp hsmallest
        exact hroom.above (List.getLast?_eq_none_iff.mp (map_eq_none_iff.mp hnone)) row hrow
          hkey)
    refine ⟨String.ofList key,
      (orderKey_keyMoves_iff h).mpr (by rw [hkey, String.toList_ofList]), fun moved hmoved => ?_⟩
    have hlist : moved.idx.toList = key := by rw [hmoved, String.toList_ofList]
    -- the key is above every key in front and below every key of the rest
    refine mergeSort_moved h (fun row hrow => ?_) fun row hrow => ?_
    · rw [String.lt_iff_toList_lt, hlist]
      exact habove _ (Option.mem_map_of_mem _ hrow)
    · rw [String.lt_iff_toList_lt, hlist]
      exact hbelow _ (Option.mem_map_of_mem _ hrow)

/-! ### Two siblings in one gap -/

def pageInFolder (id : Uuid) (idx : String) : PageTreeRow :=
  ⟨⟨id, 7, some 1, [1], false⟩, idx, .page, none, none⟩

def twoSiblings (first second : String) : PageTable where
  rows := [⟨⟨1, 7, none, [], false⟩, "a0", .folder, none, none⟩, pageInFolder 2 first,
    pageInFolder 3 second, ⟨⟨4, 7, none, [], false⟩, "a1", .folder, none, none⟩]
  nodup := by simp [pageInFolder]

/-- A move into the folder, directly after its first page. -/
def afterFirst : MoveInput where
  pageId := 4
  workspaceId := 7
  parentPageId := some 1
  afterPageId := some (some 2)
  claims := ⟨.user 9 "Ada", 7, some .member, some .editor, [], []⟩

theorem isPlace_afterFirst {first second : String} (h : first ≤ second) :
    afterFirst.IsPlace (twoSiblings first second) [pageInFolder 2 first]
      [pageInFolder 3 second] := by
  refine ⟨?_, rfl⟩
  have hfilter : (twoSiblings first second).rows.filter (fun row =>
      row.workspaceId = afterFirst.workspaceId ∧ row.parentPageId = afterFirst.parentPageId ∧
        row.id ≠ afterFirst.pageId) = [pageInFolder 2 first, pageInFolder 3 second] := by
    simp [twoSiblings, afterFirst, pageInFolder]
  have hordered : (pageInFolder 2 first).comesBefore (pageInFolder 3 second) = true :=
    PageTreeRow.comesBefore_iff.mpr
      ((lt_or_eq_of_le h).imp_right fun heq => ⟨heq, by simp [pageInFolder]⟩)
  rw [siblings, hfilter]
  exact mergeSort_of_pairwise (by simpa using hordered)

/-- Between two pages with keys that differ there is room. -/
theorem placesMoved_iff_afterFirst :
    (afterFirst.PlacesMoved (twoSiblings "a0" "a1") [pageInFolder 2 "a0"] [pageInFolder 3 "a1"] ↔
      HasRoom [pageInFolder 2 "a0"] [pageInFolder 3 "a1"]) ∧
    HasRoom [pageInFolder 2 "a0"] [pageInFolder 3 "a1"] := by
  refine ⟨placesMoved_iff (isPlace_afterFirst (String.le_iff_toList_le.mpr (by decide +kernel))),
    ⟨?_, ?_, ?_, by simp⟩⟩
  · rintro _ ⟨⟩
    decide +kernel
  · rintro _ ⟨⟩
    decide +kernel
  · rintro _ ⟨⟩ _ ⟨⟩
    simp [pageInFolder]

/-- **Two pages with one key leave no place between them**: `generateKeyBetween` throws, and
nothing can be moved there. -/
theorem not_placesMoved : ¬ ∀ (input : MoveInput) (t : PageTable) (front rest : List PageTreeRow),
    input.IsPlace t front rest → input.PlacesMoved t front rest := by
  intro hall
  have hplace := isPlace_afterFirst (le_refl "a0")
  obtain ⟨key, hkey, -⟩ := hall _ _ _ _ hplace
  have hgenerated := (orderKey_keyMoves_iff hplace).mp hkey
  obtain ⟨-, -, hlt⟩ := FractionalIndex.bounds_of_generateKeyBetween hgenerated
  exact lt_irrefl _ (hlt _ rfl _ rfl)

end MoveInput

end Sone
