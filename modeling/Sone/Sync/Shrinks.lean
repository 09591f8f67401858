import Sone.Sync.Handles
import Sone.Sync.Handlers

/-!
# What leaves a connection with nothing new

Most of what happens to a connection only takes away: documents are closed, roles change,
frames are sent, the socket closes. `Connection.Shrinks` says so of two states of a
connection, and `IndexedConnection.Keeps` of one the server holds. What was true of every
open document stays true along them, so a result about access has to look only at the steps
that do more: a document is registered, or the connection is given claims.
-/

namespace Sone

namespace Connection

variable {conn next : Connection}

/-- Going from one state of a connection to another, nothing was gained: the identity is the
same, the socket is not open again, and the open documents are among those before. -/
structure Shrinks (conn next : Connection) : Prop where
  auth : next.auth = conn.auth
  socketClosed : next.socketClosed = false → conn.socketClosed = false
  documents : ∀ doc ∈ next.documents.list, ∃ old ∈ conn.documents.list,
    old.handle = doc.handle ∧ old.room = doc.room

theorem Shrinks.refl (conn : Connection) : conn.Shrinks conn :=
  ⟨rfl, id, fun doc hdoc => ⟨doc, hdoc, rfl, rfl⟩⟩

theorem Shrinks.trans {last : Connection} (h : conn.Shrinks next) (h' : next.Shrinks last) :
    conn.Shrinks last where
  auth := h'.auth.trans h.auth
  socketClosed := fun hopen => h.socketClosed (h'.socketClosed hopen)
  documents := by
    intro doc hdoc
    obtain ⟨mid, hmid, hhandle, hroom⟩ := h'.documents doc hdoc
    obtain ⟨old, hold, hhandle', hroom'⟩ := h.documents mid hmid
    exact ⟨old, hold, hhandle'.trans hhandle, hroom'.trans hroom⟩

theorem Shrinks.tell {sent : List ServerFrame} {socketClosed : Bool}
    (h : socketClosed = false → conn.socketClosed = false) :
    conn.Shrinks { conn with sent, socketClosed } :=
  ⟨rfl, h, (Shrinks.refl conn).documents⟩

theorem shrinks_handleCloseDocument (handle : ℕ) :
    conn.Shrinks (conn.handleCloseDocument handle) where
  auth := handleCloseDocument_auth
  socketClosed := by
    rw [handleCloseDocument]
    split
    · exact id
    · exact id
  documents := fun doc hdoc => ⟨doc, (mem_handleCloseDocument.mp hdoc).1, rfl, rfl⟩

theorem shrinks_closeDocument (doc : OpenDocument) : conn.Shrinks (conn.closeDocument doc) :=
  (Shrinks.tell id).trans (shrinks_handleCloseDocument doc.handle)

theorem shrinks_revoke (conn : Connection) : conn.Shrinks conn.revoke := by
  have hloop : conn.Shrinks (conn.documents.list.foldl closeDocument conn) :=
    List.foldlRecOn _ closeDocument (motive := fun next => conn.Shrinks next) (Shrinks.refl conn)
      fun next h doc _ => h.trans (shrinks_closeDocument doc)
  exact hloop.trans (Shrinks.tell (by simp))

theorem shrinks_applyRole (doc : OpenDocument) (role : Option Role) :
    conn.Shrinks (conn.applyRole doc role) := by
  unfold applyRole
  split
  · exact shrinks_closeDocument doc
  · split
    · refine ⟨rfl, id, fun d hd => ?_⟩
      rcases OpenDocuments.mem_setRole.mp hd with ⟨hd, -⟩ | ⟨old, hold, -, rfl⟩
      · exact ⟨d, hd, rfl, rfl⟩
      · exact ⟨old, hold, rfl, rfl⟩
    · exact Shrinks.refl conn

theorem handle_ne_of_mem_applyRole_none {doc d : OpenDocument}
    (h : d ∈ (conn.applyRole doc none).documents.list) : d.handle ≠ doc.handle :=
  (mem_handleCloseDocument.mp h).2

end Connection

namespace IndexedConnection

variable {conn next : IndexedConnection}

/-- The same of a connection the server holds: while its close was not handled, it is filed
under the workspaces it was filed under. -/
structure Keeps (conn next : IndexedConnection) : Prop
    extends conn.toConnection.Shrinks next.toConnection where
  filed : next.closed = false → conn.closed = false ∧ next.byWorkspace = conn.byWorkspace

theorem Keeps.update {after : Connection} (h : conn.toConnection.Shrinks after) :
    conn.Keeps (conn.update after) :=
  ⟨h, fun hopen => ⟨hopen, rfl⟩⟩

theorem keeps_handleAuth (payload : AuthPayload) : conn.Keeps (conn.handleAuth payload).1 := by
  rw [IndexedConnection.handleAuth]
  split
  · exact .update (.tell (by simp))
  · simp only
    split
    · exact .update (.tell (by simp))
    · exact .update (.refl _)
    · exact .update (.refl _)

theorem keeps_handleOpen (requestId : ℕ) (asked : AskedName) :
    conn.Keeps (conn.handleOpen requestId asked).1 := by
  rw [IndexedConnection.handleOpen]
  split
  · exact .update (.tell (by simp))
  split
  · exact .update (.tell id)
  split
  · exact .update (.tell id)
  · exact .update (.refl _)

theorem keeps_onClose : conn.Keeps conn.onClose where
  auth := rfl
  socketClosed := id
  documents := by simp [onClose, update, Connection.onClose]
  filed := by simp [onClose]

/-- While its close was not handled, a connection is filed under the workspace of the claims
it holds. -/
def FiledByClaims (conn : IndexedConnection) : Prop :=
  conn.closed = false → ∀ auth ∈ conn.auth, auth.claims.workspaceId ∈ conn.byWorkspace

theorem FiledByClaims.of_keeps (h : conn.FiledByClaims) (hkeeps : conn.Keeps next) :
    next.FiledByClaims := by
  intro hopen auth hauth
  obtain ⟨hopen', hfiled⟩ := hkeeps.filed hopen
  rw [hfiled]
  rw [hkeeps.auth] at hauth
  exact h hopen' auth hauth

end IndexedConnection

end Sone
