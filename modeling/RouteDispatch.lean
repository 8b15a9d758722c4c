import RouteDispatch.RouteTable.Load
import RouteDispatch.Regex
import RouteDispatch.Regex.Search
import RouteDispatch.Router
import RouteDispatch.Settings
import RouteDispatch.Template.Fill
import RouteDispatch.Template.Source
import RouteDispatch.Proofs.Delivery.Calls
import RouteDispatch.Proofs.Router.Parse
import RouteDispatch.Proofs.Router.Run
import RouteDispatch.Proofs.Router.Dispatch
import RouteDispatch.Proofs.Router.Memory
import RouteDispatch.Proofs.Template.Plain
import RouteDispatch.Proofs.Template.Save.Slashes
import RouteDispatch.Proofs.Template.Restore
import RouteDispatch.Proofs.Template.Translation
import RouteDispatch.Proofs.Regex.Rows
import RouteDispatch.Proofs.Regex.Runs
import RouteDispatch.Proofs.Template.Read
import RouteDispatch.Proofs.Template.Grammar
import RouteDispatch.Proofs.Template.Offers
import RouteDispatch.Proofs.Template.Match
import RouteDispatch.Proofs.Template.Captures
import RouteDispatch.Proofs.Delivery.Seats
import RouteDispatch.Proofs.Router.Ledger
import RouteDispatch.Proofs.Router.Plan
import RouteDispatch.Proofs.Router.Interruption
import RouteDispatch.Proofs.Router.Alternation
import RouteDispatch.Proofs.Template.Filling
import RouteDispatch.Proofs.Template.Readings
import RouteDispatch.Proofs.Template.RoundTrip
import RouteDispatch.Proofs.Template.Pieces
import RouteDispatch.Proofs.Template.Ends
import RouteDispatch.Proofs.Template.Syntax
import RouteDispatch.Proofs.Template.Widening
import RouteDispatch.Proofs.Delivery.Loop
import RouteDispatch.Proofs.Delivery.Roster
import RouteDispatch.Proofs.Router.Tables
import RouteDispatch.Proofs.Router.Unmatched
import RouteDispatch.Proofs.Router.Renaming
import RouteDispatch.Proofs.Router.Registration
import RouteDispatch.Proofs.Template.Identifiers
import RouteDispatch.Proofs.Template.Settling
import RouteDispatch.Proofs.Template.Preference
import RouteDispatch.Proofs.Template.Refilling
import RouteDispatch.Proofs.Template.Rereading
import RouteDispatch.Proofs.Template.Kept
import RouteDispatch.Proofs.Template.Optional
import RouteDispatch.Proofs.Template.SteadyRow
import RouteDispatch.Proofs.Template.Regained
import RouteDispatch.Proofs.Template.Steady
import RouteDispatch.Proofs.Template.Reencoding
import RouteDispatch.Proofs.Document.Reordering
import RouteDispatch.Proofs.Text.Slashes
import RouteDispatch.Proofs.Template.SegmentMatch
import RouteDispatch.Proofs.Template.Taking
import RouteDispatch.Proofs.Template.Joined
import RouteDispatch.Proofs.Template.Room
import RouteDispatch.Proofs.Template.OptionalTail
import RouteDispatch.Proofs.Template.RestValue
import RouteDispatch.Proofs.Template.Places
import RouteDispatch.Proofs.Template.Outline
import RouteDispatch.Proofs.Template.Verbatim
import RouteDispatch.Proofs.Template.Gaps
import RouteDispatch.Proofs.Template.Bounds
import RouteDispatch.Proofs.Template.WholeSegments
import RouteDispatch.Proofs.Text.Named
import RouteDispatch.Proofs.Router.RuleMap
import RouteDispatch.Proofs.Router.RuleKeys
import RouteDispatch.Proofs.Document.Contents
