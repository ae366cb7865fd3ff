import SiteFolders.Main
import SiteFolders.Proofs.CommandLine.Failures
import SiteFolders.Proofs.Listing.Agreement
import SiteFolders.Proofs.Move.AllOrNothing
import SiteFolders.Proofs.Move.Exclusions
import SiteFolders.Proofs.Move.FirstFree
import SiteFolders.Proofs.Path.Shortest
import SiteFolders.Proofs.Reference.LeadingSegments
import SiteFolders.Proofs.Reference.LetterCase
import SiteFolders.Proofs.Reference.LooseMentions
import SiteFolders.Proofs.Reference.Occurrences
import SiteFolders.Proofs.Reference.Policies
import SiteFolders.Proofs.Reference.QuotedIncludes
import SiteFolders.Proofs.Reference.Rewording
import SiteFolders.Proofs.Reference.Scan
import SiteFolders.Proofs.Reference.ShortNames
import SiteFolders.Proofs.Run.Containment
import SiteFolders.Proofs.Run.Fixpoint
import SiteFolders.Proofs.Run.Frame
import SiteFolders.Proofs.Run.Idempotence
import SiteFolders.Proofs.Run.NewPlaces
import SiteFolders.Proofs.Run.Notices
import SiteFolders.Proofs.Run.Unmoved
import SiteFolders.Proofs.Settings.Extensions
import SiteFolders.Proofs.Settings.Source
