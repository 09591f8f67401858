import Sone.Transition.Machine
import Sone.Access.Ancestry
import Sone.Pages.Materialize

/-!
# Moves beside each other

`moveEntry` (`http/pages.ts`) checks the destination of a move against the rows, writes the
parent into the document of the page, and projects the document again: in a transaction of its
own, each of whose statements reads the rows that were committed before it. `MoveRun.machine`
interleaves any number of moves, call by call. What a transaction writes shows when it commits;
the locks it takes on rows only delay the statements of others, and are left out.

Neither the checks nor the projection lock the rows they read. Two folders that are each moved
into the other pass both checks, and each projection reads the other's row as it was: the rows
then form a cycle, and the query that walks up from either page does not end. `sound_of_reachesWhen`
says that there is no cycle where every projection that commits has written what it would write
of the rows then committed, and no path was cut or left behind for its length (`Tangles`).
-/

namespace Sone

open List Option Function

structure MoveInput where
  pageId : Uuid
  /-- The workspace of the entry, as the route read it. -/
  workspaceId : Uuid
  parentPageId : Option Uuid
  /-- After this sibling, first, or last where there is no opinion. -/
  afterPageId : Option (Option Uuid)
  claims : AccessClaims

/-- `MoveResult`, where it is not `ok`. -/
structure MoveFailure where
  status : ℕ
  code : String
  deriving DecidableEq, Repr

/-- What a projection has come to know in its transaction. -/
structure Reprojection where
  doc : ReadPage
  /-- The row there was, by its parent. -/
  existing : Option (Option Uuid)
  place : Place Uuid
  /-- What is under the page, with the paths it is to have. -/
  found : List (Uuid × List Uuid)
  deriving DecidableEq

/-- The statement of a move that comes next. -/
inductive MoveStage where
  | checksEntry
  | checksParent (kind : EntryKind)
  | readsSiblings
  /-- The document is written, with an order key. -/
  | writesDocument (idx : String)
  | loadsDocument
  /-- The transaction reads the row there is. -/
  | readsExisting (doc : ReadPage)
  | readsParent (doc : ReadPage) (existing : Option (Option Uuid))
  | readsKept (doc : ReadPage) (existing : Option (Option Uuid)) (kept : Uuid)
  /-- The row is written, and the cascade reads what is under the page. -/
  | writes (doc : ReadPage) (existing : Option (Option Uuid)) (place : Place Uuid)
  | commits (projection : Reprojection)
  | done
  | failed (failure : MoveFailure)
  deriving DecidableEq

structure MoveTask where
  input : MoveInput
  stage : MoveStage := .checksEntry

/-- What moves rely on besides the rows: `generateKeyBetween`, which may throw. -/
structure MoveEnv where
  generateKeyBetween : Option String → Option String → Option String

/-- **The documents, the committed rows, and the moves under way.** -/
structure MoveRun where
  docs : PageDocuments
  rows : PageTable
  moves : List MoveTask

inductive MoveEvent where
  | arrives (input : MoveInput)
  /-- The next statement of a move. Of two writes of a document, neither of which saw the
  other, either may win. -/
  | runs (index : ℕ) (wins : Bool)
  /-- A statement fails, or the process ends. -/
  | fails (index : ℕ)

namespace MoveInput

variable (input : MoveInput) (t : PageTable)

/-- What the row of the destination says of a move. -/
def checkParent (parentId : Uuid) : Option MoveFailure :=
  match Keyed.find t parentId with
  | none => some ⟨404, "parent_not_found"⟩
  | some parent =>
    if parent.workspaceId ≠ input.workspaceId then some ⟨404, "parent_not_found"⟩
    else if parent.kind ≠ .folder then some ⟨409, "parent_is_not_a_folder"⟩
    else if input.pageId ∈ parent.ancestorIds then some ⟨409, "cannot_move_into_own_subtree"⟩
    else
      match effectiveRole input.claims ⟨parent.id, parent.workspaceId, parent.ancestorIds,
        restrictedAt t.tables parent.path⟩ with
      | none => some ⟨404, "parent_not_found"⟩
      | some .viewer | some .commenter => some ⟨403, "not_authorized"⟩
      | some _ => none

/-- The new siblings, by order key and id. -/
def siblings : List PageTreeRow :=
  (t.rows.filter fun row => row.workspaceId = input.workspaceId ∧
    row.parentPageId = input.parentPageId ∧ row.id ≠ input.pageId).mergeSort
      PageTreeRow.comesBefore

/-- The order key a move gives: an answer, or an error of `generateKeyBetween`. -/
def orderKey (env : MoveEnv) : Except MoveFailure (Option String) :=
  let siblings := input.siblings t
  match input.afterPageId with
  | none => .ok (env.generateKeyBetween (siblings.getLast?.map (·.idx)) none)
  | some none => .ok (env.generateKeyBetween none (siblings.head?.map (·.idx)))
  | some (some after) =>
    let rest := siblings.dropWhile fun row => row.id ≠ after
    match rest with
    | [] => .error ⟨409, "sibling_not_found"⟩
    | found :: later =>
      .ok (env.generateKeyBetween (some found.idx) (later.head?.map (·.idx)))

/-- The document with the parent and the order key of a move. -/
def write (idx : String) (doc : ReadPage) : ReadPage :=
  { doc with parentPageId := input.parentPageId, idx }

end MoveInput

def isRefused (doc : ReadPage) (workspaceId : Uuid) (parent : Option PageTreeRow) : Bool :=
  match doc.parentPageId, parent with
  | some parentId, some row =>
    row.workspaceId ≠ workspaceId ∨ doc.id ∈ row.ancestorIds ++ [parentId]
  | _, _ => false

/-- What comes after the row of the parent was read: the place, or the row of the parent that
is kept. -/
def placeOrKept (doc : ReadPage) (workspaceId : Uuid) (existing : Option (Option Uuid))
    (parent : Option PageTreeRow) : MoveStage :=
  let place := computeAncestors doc.id doc.parentPageId workspaceId (existing.bind id) parent none
  match existing.bind id with
  | some kept =>
    if isRefused doc workspaceId parent then .readsKept doc existing kept
    else .writes doc existing place
  | none => .writes doc existing place

def MoveStage.next (env : MoveEnv) (s : MoveRun) (input : MoveInput) (wins : Bool) :
    MoveStage → Option (MoveRun × MoveStage)
  | .checksEntry =>
    some (s,
      if input.parentPageId = some input.pageId then .failed ⟨409, "cannot_move_into_itself"⟩
      else match Keyed.find s.rows input.pageId with
        | none => .failed ⟨404, "not_found"⟩
        | some entry => .checksParent entry.kind)
  | .checksParent kind =>
    some (s, match input.parentPageId with
      | none => if kind ≠ .folder then .failed ⟨409, "pages_need_a_folder"⟩ else .readsSiblings
      | some parentId =>
        match input.checkParent s.rows parentId with
        | some failure => .failed failure
        | none => .readsSiblings)
  | .readsSiblings =>
    match input.orderKey s.rows env with
    | .error failure => some (s, .failed failure)
    | .ok none => none
    | .ok (some idx) => some (s, .writesDocument idx)
  | .writesDocument idx => (Keyed.find s.docs input.pageId).map fun doc =>
    ({ s with docs := if wins then Keyed.upsert s.docs (input.write idx doc) else s.docs },
      .loadsDocument)
  | .loadsDocument => (Keyed.find s.docs input.pageId).map fun doc => (s, .readsExisting doc)
  | .readsExisting doc =>
    some (s, .readsParent doc ((Keyed.find s.rows doc.id).map (·.parentPageId)))
  | .readsParent doc existing =>
    some (s, placeOrKept doc input.workspaceId existing
      (doc.parentPageId.bind (Keyed.find s.rows)))
  | .readsKept doc existing kept =>
    some (s, .writes doc existing (keepExisting doc.id (some kept) (Keyed.find s.rows kept)))
  | .writes doc existing place =>
    let row := projectedRow (Keyed.find s.rows doc.id) doc input.workspaceId place
    let written : PageTable := Keyed.upsert s.rows row
    let changes := existing.any fun parentId => parentId ≠ place.parent
    some (s, .commits ⟨doc, existing, place, if changes then written.subtree doc.id else []⟩)
  | .commits projection =>
    let row := projectedRow (Keyed.find s.rows projection.doc.id) projection.doc
      input.workspaceId projection.place
    let written : PageTable := Keyed.upsert s.rows row
    some ({ s with rows := written.rewriteAll projection.found }, .done)
  | .done | .failed _ => none

def MoveRun.step (env : MoveEnv) (s : MoveRun) : MoveEvent → Option MoveRun
  | .arrives input => some { s with moves := s.moves ++ [{ input }] }
  | .runs index wins => s.moves[index]?.bind fun task =>
    (task.stage.next env s task.input wins).map fun (after, stage) =>
      { after with moves := s.moves.set index { task with stage } }
  | .fails index => some { s with moves := s.moves.eraseIdx index }

/-- **The machine of moves.** It starts with a tree whose paths are right. -/
def MoveRun.machine (env : MoveEnv) : Machine MoveRun MoveEvent where
  init s := IsPathed s.rows.places ∧ s.moves = []
  step := MoveRun.step env

/-- A projection **is current**: it has the place it would give the page now, and has found
under it what it would find now. -/
def Reprojection.IsCurrent (projection : Reprojection) (t : PageTable) (workspaceId : Uuid) :
    Prop :=
  projection.place = t.placeFor projection.doc workspaceId ∧
    projection.found =
      if (Keyed.find t projection.doc.id).any fun row =>
        row.parentPageId ≠ projection.place.parent then
      PageTable.subtree (Keyed.upsert t (projectedRow (Keyed.find t projection.doc.id)
        projection.doc workspaceId projection.place)) projection.doc.id
      else []

instance (projection : Reprojection) (t : PageTable) (workspaceId : Uuid) :
    Decidable (projection.IsCurrent t workspaceId) :=
  inferInstanceAs (Decidable (_ ∧ _))

namespace MoveRun

variable {env : MoveEnv} {s s' : MoveRun}

def IsAcyclic (s : MoveRun) : Prop := ∀ id, ¬ Relation.TransGen (IsChild s.rows.places) id id

/-- The query that walks up from a page ends. -/
def WalksEnd (s : MoveRun) : Prop :=
  ∀ row ∈ s.rows.rows, ∃ n, s.rows.tables.ancestryStep^[n] [row.toPageRow.atDepth 0] = []

/-- There is no cycle, and the query that walks up from a page ends. -/
def IsSound (s : MoveRun) : Prop := s.IsAcyclic ∧ s.WalksEnd

/-- The steps at which the rows may tangle: a projection commits that is not current, that cuts
the path of the page, or that moves it with something too far under it. -/
def Tangles (s : MoveRun) : MoveEvent → Prop
  | .runs index _ => ∃ task ∈ s.moves[index]?,
      match task.stage with
      | .commits projection => ¬ projection.IsCurrent s.rows task.input.workspaceId ∨
          s.rows.IsCut projection.doc task.input.workspaceId ∨
            s.rows.IsDeep projection.doc task.input.workspaceId
      | _ => False
  | _ => False

instance (s : MoveRun) (event : MoveEvent) : Decidable (s.Tangles event) := by
  unfold Tangles
  split
  · have hstage : ∀ task : MoveTask, Decidable (match task.stage with
        | .commits projection => ¬ projection.IsCurrent s.rows task.input.workspaceId ∨
            s.rows.IsCut projection.doc task.input.workspaceId ∨
              s.rows.IsDeep projection.doc task.input.workspaceId
        | _ => False) := by
      intro task
      split <;> infer_instance
    infer_instance
  · infer_instance

/-! ### A projection that is current -/

theorem rewriteAll_nil (t : PageTable) : t.rewriteAll [] = t := by
  obtain ⟨rows, nodup⟩ := t
  have hrows : rows.map (PageTable.rewrite []) = rows :=
    (map_congr_left fun row _ => PageTable.rewrite_nil row).trans (List.map_id rows)
  simp only [PageTable.rewriteAll, Keyed.modify, hrows]

theorem rows_of_isCurrent {projection : Reprojection} {t : PageTable} {workspaceId : Uuid}
    (h : projection.IsCurrent t workspaceId) :
    PageTable.rewriteAll (Keyed.upsert t (projectedRow (Keyed.find t projection.doc.id)
        projection.doc workspaceId projection.place)) projection.found =
      (materializeDocument t projection.doc workspaceId).1 := by
  obtain ⟨hplace, hfound⟩ := h
  rw [hfound, hplace, materializeDocument]
  simp only
  split
  · rfl
  · exact rewriteAll_nil _

/-! ### The invariant -/

def loaded : MoveStage → Option ReadPage
  | .readsExisting doc | .readsParent doc _ | .readsKept doc _ _ | .writes doc _ _ => some doc
  | .commits projection => some projection.doc
  | _ => none

/-- A move that found its entry, and goes on. -/
def IsUnderWay : MoveStage → Prop
  | .checksEntry | .done | .failed _ => False
  | _ => True

/-- What holds of a move: its entry has a row, and what it loaded is the entry's document. -/
structure StageInv (s : MoveRun) (input : MoveInput) (stage : MoveStage) : Prop where
  entry : IsUnderWay stage → Keyed.find s.rows input.pageId ≠ none
  ofEntry : ∀ doc ∈ loaded stage, doc.id = input.pageId

/-- **The invariant.** -/
structure Inv (s : MoveRun) : Prop where
  pathed : IsPathed s.rows.places
  stages : ∀ task ∈ s.moves, s.StageInv task.input task.stage

variable {input : MoveInput} {stage stage' : MoveStage} {wins : Bool}

theorem StageInv.of_failed (failure : MoveFailure) : s.StageInv input (.failed failure) :=
  ⟨fun hway => hway.elim, by simp [MoveRun.loaded]⟩

theorem StageInv.of_loaded_none (hentry : Keyed.find s.rows input.pageId ≠ none)
    (hnone : loaded stage = none) : s.StageInv input stage :=
  ⟨fun _ => hentry, by simp [hnone]⟩

theorem StageInv.of_loaded (hentry : Keyed.find s.rows input.pageId ≠ none) {doc : ReadPage}
    (hdoc : doc.id = input.pageId) (hloaded : loaded stage = some doc) :
    s.StageInv input stage := by
  refine ⟨fun _ => hentry, fun doc' hdoc' => ?_⟩
  rw [hloaded, mem_some_iff] at hdoc'
  exact hdoc' ▸ hdoc

theorem loaded_placeOrKept (doc : ReadPage) (workspaceId : Uuid)
    (existing : Option (Option Uuid)) (parent : Option PageTreeRow) :
    loaded (placeOrKept doc workspaceId existing parent) = some doc := by
  unfold placeOrKept
  split
  · split <;> rfl
  · rfl

/-- **What a statement of a move does**: it changes no row, and the move goes on; or it commits
a projection. -/
theorem next_cases (h : s.StageInv input stage)
    (hnext : stage.next env s input wins = some (s', stage')) :
    s'.moves = s.moves ∧ ((s'.rows = s.rows ∧ s.StageInv input stage') ∨
      ∃ projection, stage = .commits projection ∧ stage' = .done ∧
        s'.rows = PageTable.rewriteAll (Keyed.upsert s.rows (projectedRow
          (Keyed.find s.rows projection.doc.id) projection.doc input.workspaceId
            projection.place)) projection.found) := by
  have hentry : IsUnderWay stage → Keyed.find s.rows input.pageId ≠ none := h.entry
  cases stage with
  | checksEntry =>
    obtain ⟨rfl, rfl⟩ := Prod.mk.inj (some.inj hnext)
    refine ⟨rfl, .inl ⟨rfl, ?_⟩⟩
    split
    · exact .of_failed _
    · split
      · exact .of_failed _
      · rename_i entry hfind
        exact .of_loaded_none (by simp [hfind]) rfl
  | checksParent kind =>
    obtain ⟨rfl, rfl⟩ := Prod.mk.inj (some.inj hnext)
    refine ⟨rfl, .inl ⟨rfl, ?_⟩⟩
    split
    · split
      · exact .of_failed _
      · exact .of_loaded_none (hentry trivial) rfl
    · split
      · exact .of_failed _
      · exact .of_loaded_none (hentry trivial) rfl
  | readsSiblings =>
    rw [MoveStage.next] at hnext
    split at hnext
    · obtain ⟨rfl, rfl⟩ := Prod.mk.inj (some.inj hnext)
      exact ⟨rfl, .inl ⟨rfl, .of_failed _⟩⟩
    · simp at hnext
    · obtain ⟨rfl, rfl⟩ := Prod.mk.inj (some.inj hnext)
      exact ⟨rfl, .inl ⟨rfl, .of_loaded_none (hentry trivial) rfl⟩⟩
  | writesDocument idx =>
    obtain ⟨doc, -, heq⟩ := map_eq_some_iff.mp hnext
    obtain ⟨rfl, rfl⟩ := Prod.mk.inj heq
    exact ⟨rfl, .inl ⟨rfl, .of_loaded_none (hentry trivial) rfl⟩⟩
  | loadsDocument =>
    obtain ⟨doc, hdoc, heq⟩ := map_eq_some_iff.mp hnext
    obtain ⟨rfl, rfl⟩ := Prod.mk.inj heq
    exact ⟨rfl, .inl ⟨rfl, .of_loaded (hentry trivial) (Keyed.key_eq hdoc) rfl⟩⟩
  | readsExisting doc =>
    obtain ⟨rfl, rfl⟩ := Prod.mk.inj (some.inj hnext)
    exact ⟨rfl, .inl ⟨rfl, .of_loaded (hentry trivial) (h.ofEntry doc rfl) rfl⟩⟩
  | readsParent doc existing =>
    obtain ⟨rfl, rfl⟩ := Prod.mk.inj (some.inj hnext)
    exact ⟨rfl, .inl ⟨rfl, .of_loaded (hentry trivial) (h.ofEntry doc rfl)
      (loaded_placeOrKept _ _ _ _)⟩⟩
  | readsKept doc existing kept =>
    obtain ⟨rfl, rfl⟩ := Prod.mk.inj (some.inj hnext)
    exact ⟨rfl, .inl ⟨rfl, .of_loaded (hentry trivial) (h.ofEntry doc rfl) rfl⟩⟩
  | writes doc existing place =>
    obtain ⟨rfl, rfl⟩ := Prod.mk.inj (some.inj hnext)
    exact ⟨rfl, .inl ⟨rfl, .of_loaded (hentry trivial) (h.ofEntry doc rfl) rfl⟩⟩
  | commits projection =>
    obtain ⟨rfl, rfl⟩ := Prod.mk.inj (some.inj hnext)
    exact ⟨rfl, .inr ⟨projection, rfl, rfl, rfl⟩⟩
  | done => simp [MoveStage.next] at hnext
  | failed failure => simp [MoveStage.next] at hnext

theorem StageInv.mono (h : s.StageInv input stage)
    (hrows : ∀ id, Keyed.find s.rows id ≠ none → Keyed.find s'.rows id ≠ none) :
    s'.StageInv input stage :=
  ⟨fun hway => hrows _ (h.entry hway), h.ofEntry⟩

/-- **A step** that tangles nothing keeps the invariant. -/
theorem Inv.step (h : s.Inv) {event : MoveEvent} (hgood : ¬ s.Tangles event)
    (hstep : s.step env event = some s') : s'.Inv := by
  cases event with
  | arrives input =>
    obtain rfl := some.inj hstep
    refine ⟨h.pathed, fun task htask => ?_⟩
    rcases mem_append.mp htask with hmem | hmem
    · exact (h.stages task hmem).mono fun _ hne => hne
    · obtain rfl := mem_singleton.mp hmem
      exact ⟨fun hway => hway.elim, by simp [MoveRun.loaded]⟩
  | fails index =>
    obtain rfl := some.inj hstep
    exact ⟨h.pathed, fun task htask =>
      (h.stages task (mem_of_mem_eraseIdx htask)).mono fun _ hne => hne⟩
  | runs index wins =>
    obtain ⟨task, htask, hrun⟩ := bind_eq_some_iff.mp hstep
    obtain ⟨⟨after, stage⟩, hnext, rfl⟩ := map_eq_some_iff.mp hrun
    have hmem : task ∈ s.moves := mem_of_getElem? htask
    obtain ⟨-, ⟨hrows, hstage⟩ | ⟨projection, hcommits, rfl, hrows⟩⟩ :=
      next_cases (h.stages task hmem) hnext
    · refine ⟨by rw [hrows]; exact h.pathed, fun other hother => ?_⟩
      have hsame : ∀ id, Keyed.find s.rows id ≠ none → Keyed.find after.rows id ≠ none := by
        intro id
        rw [hrows]
        exact fun hne => hne
      rcases mem_or_eq_of_mem_set hother with hother | rfl
      · exact (h.stages other hother).mono hsame
      · exact hstage.mono hsame
    · -- a projection commits, and is what it would be now
      have hfine : ¬ (¬ projection.IsCurrent s.rows task.input.workspaceId ∨
          s.rows.IsCut projection.doc task.input.workspaceId ∨
            s.rows.IsDeep projection.doc task.input.workspaceId) := by
        intro hbad
        refine hgood ⟨task, htask, ?_⟩
        rw [hcommits]
        exact hbad
      rw [not_or, not_not, not_or] at hfine
      obtain ⟨hcurrent, hcut, hdeep⟩ := hfine
      have hinv := h.stages task hmem
      rw [hcommits] at hinv
      have hentry : Keyed.find s.rows projection.doc.id ≠ none := by
        rw [hinv.ofEntry projection.doc rfl]
        exact hinv.entry trivial
      rw [rows_of_isCurrent hcurrent] at hrows
      refine ⟨?_, fun other hother => ?_⟩
      · rw [hrows]
        exact PageTable.isPathed_materializeDocument h.pathed hcut hdeep (fun _ => hentry)
          fun hnone => absurd hnone hentry
      · have hkeeps : ∀ id, Keyed.find s.rows id ≠ none → Keyed.find after.rows id ≠ none := by
          intro id hne
          obtain ⟨found, -, hfind⟩ :=
            PageTable.find_materializeDocument s.rows projection.doc task.input.workspaceId
          rw [hrows, hfind]
          split <;> simp [hne]
        rcases mem_or_eq_of_mem_set hother with hother | rfl
        · exact (h.stages other hother).mono hkeeps
        · exact ⟨fun hway => hway.elim, by simp [MoveRun.loaded]⟩

/-! ### No cycle, and walks that end -/

theorem mem_iterate_ancestryStep {t : PageTable} (h : IsPathed t.places) {row : PageTreeRow}
    (hrow : row ∈ t.rows) {n : ℕ} {a : AncestryRow}
    (ha : a ∈ t.tables.ancestryStep^[n] [row.toPageRow.atDepth 0]) :
    ∃ above ∈ t.rows, a = above.toPageRow.atDepth n ∧
      above.ancestorIds.length + n ≤ row.ancestorIds.length := by
  induction n generalizing a with
  | zero =>
    rw [iterate_zero_apply, mem_singleton] at ha
    exact ⟨row, hrow, ha, le_refl _⟩
  | succ n ih =>
    rw [iterate_succ_apply', Tables.ancestryStep, mem_flatMap] at ha
    obtain ⟨b, hb, ha⟩ := ha
    obtain ⟨below, hbelow, rfl, hlength⟩ := ih hb
    simp only [PageTable.tables, List.mem_map, mem_filter, decide_eq_true_eq] at ha
    obtain ⟨_, ⟨⟨above, habove, rfl⟩, hparent⟩, rfl⟩ := ha
    have hplace := PageTable.places_of_find (Keyed.mem_rows_iff.mp hbelow)
    have hplaceAbove := PageTable.places_of_find (Keyed.mem_rows_iff.mp habove)
    have hpath := (h below.id _ hplace).child above.id _ hparent.symm hplaceAbove
    have hlonger := congrArg List.length hpath
    simp only [length_append, length_singleton] at hlonger
    exact ⟨above, habove, rfl, by omega⟩

theorem Inv.isSound (h : s.Inv) : s.IsSound := by
  refine ⟨h.pathed.acyclic, fun row hrow => ⟨row.ancestorIds.length + 1, ?_⟩⟩
  rw [eq_nil_iff_forall_not_mem]
  intro a ha
  obtain ⟨above, -, -, hlength⟩ := mem_iterate_ancestryStep h.pathed hrow ha
  omega

/-- **Moves beside each other make no cycle**, in every run in which each projection that
commits is current, cuts no path, and moves nothing with something too far under it. -/
theorem sound_of_reachesWhen (h : (machine env).ReachesWhen (fun s event => ¬ s.Tangles event) s) :
    s.IsSound := by
  have hinv : s.Inv := h.invariant
    (fun s hinit => ⟨hinit.1, by simp [hinit.2]⟩)
    fun _ _ _ hinv hgood hstep => hinv.step hgood hstep
  exact hinv.isSound

theorem iterate_ancestryStep_ne_nil {t : PageTable}
    (h : ∀ row ∈ t.rows, ∃ above ∈ t.rows, row.parentPageId = some above.id)
    {row : PageTreeRow} (hrow : row ∈ t.rows) (n : ℕ) :
    t.tables.ancestryStep^[n] [row.toPageRow.atDepth 0] ≠ [] := by
  have hsome : ∃ above ∈ t.rows, above.toPageRow.atDepth n ∈
      t.tables.ancestryStep^[n] [row.toPageRow.atDepth 0] := by
    induction n with
    | zero => exact ⟨row, hrow, by simp⟩
    | succ n ih =>
      obtain ⟨below, hbelow, hmem⟩ := ih
      obtain ⟨above, habove, hparent⟩ := h below hbelow
      refine ⟨above, habove, ?_⟩
      rw [iterate_succ_apply', Tables.ancestryStep, mem_flatMap]
      refine ⟨_, hmem, List.mem_map.mpr ⟨above.toPageRow, ?_, rfl⟩⟩
      rw [mem_filter, decide_eq_true_iff]
      exact ⟨List.mem_map_of_mem habove, hparent.symm⟩
  obtain ⟨above, -, hmem⟩ := hsome
  exact ne_nil_of_mem hmem

/-! ### Two folders and a page -/

/-- An order key for an empty folder. -/
def exampleMoves : MoveEnv where
  generateKeyBetween _ _ := some "a0"

/-- Two folders at the root, with a page in the first. -/
def twoFolders : MoveRun where
  docs := {
    rows := [⟨1, .folder, none, none, "a0", none⟩, ⟨2, .folder, none, none, "a1", none⟩,
      ⟨3, .page, some 1, none, "a0", none⟩]
    nodup := by decide }
  rows := {
    rows := [⟨⟨1, 7, none, [], false⟩, "a0", .folder, none, none⟩,
      ⟨⟨2, 7, none, [], false⟩, "a1", .folder, none, none⟩,
      ⟨⟨3, 7, some 1, [1], false⟩, "a0", .page, none, none⟩]
    nodup := by decide }
  moves := []

/-- A move of an entry of the workspace by one of its editors. -/
def moveInto (pageId parentPageId : Uuid) : MoveInput where
  pageId
  workspaceId := 7
  parentPageId := some parentPageId
  afterPageId := none
  claims := ⟨.user 9 "Ada", 7, some .member, some .editor, [], []⟩

theorem twoFolders_init (env : MoveEnv) : (machine env).init twoFolders :=
  ⟨PageTable.isPathed_of_rows (by decide +kernel), rfl⟩

/-- **Two moves beside each other**: the page, and the folder it was in, go into the other
folder. Both have written their documents when the first is projected. -/
theorem sound_of_reachesWhen_beside : ∃ s : MoveRun, s.IsSound ∧
    s.rows.rows.map (·.ancestorIds) = [[2], [], [2]] := by
  have hreach : ∃ s : MoveRun,
      (machine exampleMoves).ReachesWhen (fun s event => ¬ s.Tangles event) s ∧
        s.rows.rows.map (·.ancestorIds) = [[2], [], [2]] :=
    Machine.exists_reachesWhen_of_runWhen
      ([.arrives (moveInto 3 2), .arrives (moveInto 1 2)] ++
        (List.replicate 4 [.runs 0 true, .runs 1 true]).flatten ++
        List.replicate 5 (.runs 0 true) ++ List.replicate 5 (.runs 1 true))
      (twoFolders_init exampleMoves) (by decide +kernel)
  obtain ⟨s, hs, hpaths⟩ := hreach
  exact ⟨s, sound_of_reachesWhen hs, hpaths⟩

/-- **Moves beside each other can make a cycle**: each of the two folders goes into the other,
and each projection reads the row of the other as it was. No walk up from a folder then ends. -/
theorem not_isSound : ¬ (∀ env s, (machine env).Reaches s → s.IsAcyclic) ∧
    ¬ ∀ env s, (machine env).Reaches s → s.WalksEnd := by
  have hreach : ∃ s : MoveRun, (machine exampleMoves).Reaches s ∧
      s.rows.rows.map (fun row => (row.id, row.parentPageId)) =
        [(1, some 2), (2, some 1), (3, some 1)] :=
    Machine.exists_reachesWhen_of_runWhen
      ([.arrives (moveInto 1 2), .arrives (moveInto 2 1)] ++
        (List.replicate 9 [.runs 0 true, .runs 1 true]).flatten)
      (twoFolders_init exampleMoves) (by decide +kernel)
  obtain ⟨s, hs, hparents⟩ := hreach
  obtain ⟨first, rest, hrows, hfirst, hrest⟩ := map_eq_cons_iff.mp hparents
  obtain ⟨second, third, rfl, hsecond, hthird⟩ := map_eq_cons_iff.mp hrest
  obtain ⟨page, rfl, hpage⟩ := map_eq_singleton_iff.mp hthird
  obtain ⟨hid, hparent⟩ := Prod.mk.inj hfirst
  obtain ⟨hidSecond, hparentSecond⟩ := Prod.mk.inj hsecond
  have hmem : first ∈ s.rows.rows := by simp [hrows]
  have hmemSecond : second ∈ s.rows.rows := by simp [hrows]
  constructor
  · intro hall
    have hplace : s.rows.places 1 = some first.place := by
      rw [PageTable.places, ← hid, Keyed.mem_rows_iff.mp hmem]
      rfl
    have hplaceSecond : s.rows.places 2 = some second.place := by
      rw [PageTable.places, ← hidSecond, Keyed.mem_rows_iff.mp hmemSecond]
      rfl
    exact hall exampleMoves s hs 1
      ((Relation.TransGen.single ⟨_, hplace, hparent⟩).tail ⟨_, hplaceSecond, hparentSecond⟩)
  · intro hall
    obtain ⟨n, hn⟩ := hall exampleMoves s hs first hmem
    refine iterate_ancestryStep_ne_nil (fun row hrow => ?_) hmem n hn
    rw [hrows, mem_cons, mem_cons, mem_singleton] at hrow
    rcases hrow with rfl | rfl | rfl
    · exact ⟨second, hmemSecond, by rw [hparent, hidSecond]⟩
    · exact ⟨first, hmem, by rw [hparentSecond, hid]⟩
    · exact ⟨first, hmem, by rw [(Prod.mk.inj hpage).2, hid]⟩

end MoveRun

end Sone
