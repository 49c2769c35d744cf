import Mathlib.Data.List.MinMax
import Mathlib.Data.Finset.Card
import Mathlib.Data.Finset.Dedup
import Mathlib.Algebra.BigOperators.Group.List.Basic
import Mathlib.Algebra.Order.Ring.Int
import Postio.Account.FlightRuns
import Postio.Account.UidChunks
import Postio.Account.UidSet
import Postio.Blobs.BlobWriter
import Postio.Blobs.Container
import Postio.Blobs.Edited
import Postio.Blobs.Opening
import Postio.Blobs.RoundTrip
import Postio.Blobs.Sealing
import Postio.Body.Flowed
import Postio.Body.QuoteFolds
import Postio.Body.TextHtml
import Postio.Body.TextShown
import Postio.Contacts.FoldAgrees
import Postio.Contacts.FoldRuns
import Postio.Contacts.NeverDuplicates
import Postio.Contacts.Sightings
import Postio.Contacts.SyncConverges
import Postio.Core.UndoHistory
import Postio.Drafts.ShortOfExists
import Postio.Drafts.UploadRuns
import Postio.Drafts.VanishedRemoved
import Postio.Imap.BodySections
import Postio.Imap.GenerationsTold
import Postio.Imap.SessionsHeld
import Postio.Imap.SlotRuns
import Postio.Lib.Blanks
import Postio.Lib.Calendar
import Postio.Lib.Chunks
import Postio.Lib.Doubles
import Postio.Lib.Fields
import Postio.Lib.Lowercase
import Postio.Lib.Markup
import Postio.Lib.Paced
import Postio.Lib.Scanner
import Postio.Lib.Separated
import Postio.Lib.Slices
import Postio.Lib.Run
import Postio.Session.Listed
import Postio.Lib.Windows
import Postio.Store.MailboxCounts
import Postio.Lists.WholeList
import Postio.Maildir.FolderNames
import Postio.Maildir.UidsSpent
import Postio.Model.HeaderBlock
import Postio.Model.HeaderSafe
import Postio.Model.Outgoing
import Postio.Model.RecipientBack
import Postio.Model.RecipientLaw
import Postio.Model.Recipients
import Postio.Model.Redaction
import Postio.Model.SpelledFlag
import Postio.Model.SubjectLaw
import Postio.Model.SubjectLine
import Postio.Model.SubjectStable
import Postio.Pull.Adoption
import Postio.Pull.CopyBack
import Postio.Pull.LocalState
import Postio.Pull.Shadow
import Postio.Search.Dates
import Postio.Search.EditFrames
import Postio.Search.Edits
import Postio.Search.Highlight
import Postio.Search.Occurrences
import Postio.Search.Parser
import Postio.Search.Passage
import Postio.Search.Query
import Postio.Search.Relaxations
import Postio.Search.Reread
import Postio.Search.RollingDates
import Postio.Search.Sizes
import Postio.Search.Snippet
import Postio.Search.Spans
import Postio.Search.SpelledBack
import Postio.Search.SpelledDates
import Postio.Search.Spelling
import Postio.Search.ToggleLaw
import Postio.Search.Toggles
import Postio.Send.AtMostOnce
import Postio.Send.CancelSend
import Postio.Send.OneSentRow
import Postio.Send.Reservation
import Postio.Session.GoingBack
import Postio.Session.Navigation
import Postio.Session.Undo
import Postio.Store.Owned
import Postio.Lib.Commits
import Postio.Session.UndoWhole
import Postio.Session.WholeView
import Postio.Smtp.Bcc
import Postio.Smtp.Indeterminate
import Postio.Smtp.Session
import Postio.Store.AggregatesExact
import Postio.Store.BlobCollection
import Postio.Store.BulkFlags
import Postio.Store.Contents
import Postio.Store.CountsExact
import Postio.Store.FootprintExact
import Postio.Store.Refiling
import Postio.Store.RemindersFollow
import Postio.Store.ThreadPartition
import Postio.Sync.BackfillClaims
import Postio.Sync.CoalesceRetry
import Postio.Sync.CoalesceRows
import Postio.Lib.Table
import Postio.Store.MailStore
import Postio.Sync.DrainAccounts
import Postio.Sync.DrainOrder
import Postio.Sync.Enumeration
import Postio.Sync.ResyncRuns
import Postio.Sync.Vanished
import Postio.Ui.ListRows
import Postio.Ui.Splices
import Postio.Ui.WindowBounds
import Postio.Vault.Tasks
