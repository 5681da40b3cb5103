import Aurweb.Proofs.Proposals
import Aurweb.Proofs.Terms
import Aurweb.Proofs.Reminders
import Aurweb.Proofs.GitUpdateLegacy
import Aurweb.Proofs.Permissions
import Aurweb.Proofs.VoteRequests
import Aurweb.Proofs.Links
import Aurweb.Proofs.Cooldown
import Aurweb.Proofs.NormalizedEmail
import Aurweb.Proofs.ReceivePack
import Aurweb.Proofs.Suspension
import Aurweb.Proofs.Revocation
import Aurweb.Proofs.Deletions
import Aurweb.Proofs.Adoptions
import Aurweb.Proofs.Priorities
import Aurweb.Proofs.Orphaning
import Aurweb.Proofs.InStep
import Aurweb.Proofs.ServeFrame
import Aurweb.Proofs.AccountDeletion
import Aurweb.Proofs.Ratelimit
import Aurweb.Proofs.HandleRequest
import Aurweb.Proofs.LateRequests
import Aurweb.Proofs.Merging
import Aurweb.Proofs.ResetKeys
import Aurweb.Proofs.FastForward
import Aurweb.Proofs.GitUpdateAlpm
import Aurweb.Proofs.DisownRetry
import Aurweb.Proofs.Comaintainers
import Aurweb.Proofs.ListOrder
import Aurweb.Proofs.Unhandled
import Aurweb.Proofs.CommitTrees
import Aurweb.Proofs.BulkActions
import Aurweb.Proofs.AccountEdit
import Aurweb.Proofs.SearchForms
import Aurweb.Proofs.WebSearch
import Aurweb.Proofs.SearchPages
import Aurweb.Proofs.DependencyListing
import Aurweb.Proofs.Mkpkglists
import Aurweb.Proofs.EmailMigration
import Aurweb.Proofs.RepeatedReminders
import Aurweb.Proofs.Aurblup
import Aurweb.Proofs.AddVote
import Aurweb.Proofs.GitAuth
import Aurweb.Proofs.ParseDep
import Aurweb.Proofs.Notify
import Aurweb.Proofs.IdRedirect
import Aurweb.Proofs.Keywords
import Aurweb.Proofs.Redirects
import Aurweb.Proofs.CanonicalEmail
import Aurweb.Keywords
import Aurweb.Proofs.Popularity
import Aurweb.Proofs.Cache
import Aurweb.Proofs.MetadataArchive
import Aurweb.Proofs.RatelimitBound
import Aurweb.Proofs.Served
import Aurweb.Proofs.DependencyLookup
import Aurweb.Proofs.PackagePage
import Aurweb.Proofs.Retention
