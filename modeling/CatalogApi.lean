import CatalogApi.CacheBudget.Overshoot
import CatalogApi.CacheBudget.Sequence
import CatalogApi.CatalogMerge.Agreement
import CatalogApi.Consent.Agreement
import CatalogApi.Erasure.Complete
import CatalogApi.Erasure.Coverage
import CatalogApi.Evaluation.Extremes
import CatalogApi.Explore.Traversal
import CatalogApi.ExploreHubs.Skipped
import CatalogApi.Extraction.Files
import CatalogApi.Extraction.Reports
import CatalogApi.Extraction.Samples
import CatalogApi.Fit.Bridge
import CatalogApi.Fit.Rows
import CatalogApi.GenreTree.Lock
import CatalogApi.IdentityLedger.Enough
import CatalogApi.IdentityLedger.Reports
import CatalogApi.ImportCache.Handled
import CatalogApi.LedgerBackfill.Outcome
import CatalogApi.LedgerBackfill.ProxyTwo
import CatalogApi.LedgerRefresh.Repeats
import CatalogApi.LegacyKeys.Migration
import CatalogApi.MediaBackfill.Collection
import CatalogApi.NativeIds.Cache
import CatalogApi.NativeIds.Projection
import CatalogApi.Nlq.Engine
import CatalogApi.Oauth.Signing
import CatalogApi.Passwords.Revocation
import CatalogApi.Rarity.Agreement
import CatalogApi.Rarity.Breakdown
import CatalogApi.Rarity.TierPages
import CatalogApi.ReattachTrigger.Marker
import CatalogApi.Recommend.Merge
import CatalogApi.Recommend.Precomputed
import CatalogApi.Search.Paging
import CatalogApi.Sessions.Erased
import CatalogApi.SingleFlight.Sharing
import CatalogApi.Snapshots.Rejections
import CatalogApi.Snapshots.Window
import CatalogApi.Strata.BudgetText
import CatalogApi.Strata.CoarseFolds
import CatalogApi.Strata.Marks
import CatalogApi.Strata.Order
import CatalogApi.Strata.PressingCursors
import CatalogApi.Strata.RoundTrip
import CatalogApi.Syncer.Paging
import CatalogApi.Syncer.Repeats
import CatalogApi.Syncer.Trigger
import CatalogApi.Taste.Reads
import CatalogApi.TwoFactor.SingleUse
