import CodeListing.Construction
import CodeListing.Main
import CodeListing.Proofs.Backend.Exchange
import CodeListing.Proofs.Code.Reordering
import CodeListing.Proofs.Command.Exit
import CodeListing.Proofs.Command.Grammar
import CodeListing.Proofs.Files.Editing
import CodeListing.Proofs.Files.Sources
import CodeListing.Proofs.Run.Acceptance
import CodeListing.Proofs.Run.Controls
import CodeListing.Proofs.Run.Location
import CodeListing.Proofs.Text.Content
import CodeListing.Proofs.Backend.Delivery
import CodeListing.Proofs.Command.History
import CodeListing.Proofs.Code.Nesting
import CodeListing.Proofs.Run.Surroundings
import CodeListing.Proofs.Text.Positions
import CodeListing.Proofs.Code.Columns
import CodeListing.Proofs.Code.LineNumbers
import CodeListing.Proofs.Run.Labels
import CodeListing.Proofs.Files.Resolving
