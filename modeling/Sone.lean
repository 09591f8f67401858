import Sone.Access.Request
import Sone.Sync.Live
import Sone.Sync.Lifecycle
import Sone.Sync.UpToDate
import Sone.Account.RotationFinal
import Sone.Files.Puts
import Sone.Files.Backup
import Sone.Files.Sweep
import Sone.Pages.Arrival
import Sone.Pages.Relocate
import Sone.Client.Connection
import Sone.Wire.RoundTrip
import Sone.Account.Attempts
import Sone.Account.Accepted
import Sone.Jobs.Runner
import Sone.Jobs.Expiry
import Sone.Archive.Reads
import Sone.Archive.RoundTrip
import Sone.Doc.Attribution
import Sone.Canvas.RoundTrip
import Sone.Archive.Rebuilt
import Sone.Account.Administrators
import Sone.Account.FirstAccount
import Sone.Account.IdToken
import Sone.Pages.Restore
import Sone.Version.Precedence
import Sone.Version.Migrate
import Sone.Editor.Ranges
import Sone.Editor.Numbering
import Sone.Editor.BlockOps
import Sone.Pages.Containers
import Sone.Jobs.ReplyAddress
import Sone.Projection.Notifications
import Sone.Search.Route
import Sone.Client.Released
import Sone.Pages.Siblings
import Sone.Collections.ViewSql
import Sone.Collections.DeclaredOrder
import Sone.Collections.RollupPartial
import Sone.Collections.FormulaUsable
import Sone.Wire.Untrusted
import Sone.Doc.TextRuns
import Sone.Doc.DiffVersions
import Sone.Doc.Versions
import Sone.Doc.Detached
import Sone.Access.Monotone
import Sone.Sync.Poisoned
import Sone.Doc.Discussion
import Sone.Collections.Writers
import Sone.Archive.Reports
import Sone.Search.Written
import Sone.Formula.Completion
import Sone.Account.Base32
import Sone.Video.Links
import Sone.Collections.TableHistory
import Sone.Pages.Favourites
